import GiantCore.Coins.Coins
import GiantCore.Coins.Compressor
import GiantCore.Validation.CheckTransaction

/-! # The stored form of coins

`CCoins::Serialize` writes a header code, a bitmask of the outputs after the second, and the unspent
outputs; `Unserialize` reads them back up to the bound of the header code
(`unserialize_serialize`). `GetSerializeSize` multiplies another factor into the header code than
`Serialize` does, so that the size is right where the two codes have one size
(`getSerializeSize_eq_iff`).
-/

namespace GiantCore

open GiantCore.Foundation

namespace CTxOutCompressor

/-- A number that is converted to a `uint64_t`. -/
def toUInt64 (value : Int) : Nat := (value % 2 ^ 64).toNat

def serialize (lib : PubKeyLibrary) (txout : CTxOut) : List UInt8 :=
  VarInt.write 10 false (compressAmount (toUInt64 txout.nValue))
    (CScriptCompressor.serialize lib txout.scriptPubKey)

def getSerializeSize (lib : PubKeyLibrary) (txout : CTxOut) : Nat :=
  VarInt.size 10 (compressAmount (toUInt64 txout.nValue)) +
    CScriptCompressor.getSerializeSize lib txout.scriptPubKey

/-- Read an output where a null one stands. -/
def unserialize (lib : PubKeyLibrary) (s : List UInt8) : Option (CTxOut × List UInt8) := do
  let (nVal, s) ← VarInt.read 64 0 s
  let (scriptPubKey, s) ← CScriptCompressor.unserialize lib s
  return ({ CTxOut.null with
    nValue := (BitVec.ofNat 64 (decompressAmount nVal)).toInt, scriptPubKey }, s)

end CTxOutCompressor

namespace CCoins

/-! ## The bitmask -/

/-- The output is there and unspent. -/
def unspent (vout : List CTxOut) (i : Nat) : Bool := vout[i]?.any fun out => !out.isNull

/-- A byte of eight bits, from the lowest up. -/
def packBits (bit : Nat → Bool) : UInt8 :=
  (List.range 8).foldl (fun chAvail i =>
    if bit i then chAvail ||| (1 <<< UInt8.ofNat i) else chAvail) 0

/-- A byte of the bitmask. -/
def maskByte (vout : List CTxOut) (b : Nat) : UInt8 :=
  packBits fun i => unspent vout (2 + b * 8 + i)

/-- One of the eight outputs is unspent. -/
def usedByte (vout : List CTxOut) (b : Nat) : Bool :=
  (List.range 8).any fun i => unspent vout (2 + b * 8 + i)

/-- The loop of `CalcMaskSize` over some bytes: the last that is used, and how many are. -/
def scanMask (used : Nat → Bool) (count : Nat) : Nat × Nat :=
  (List.range count).foldl (fun (nLastUsedByte, nNonzeroBytes) b =>
    if used b then (b + 1, nNonzeroBytes + 1) else (nLastUsedByte, nNonzeroBytes)) (0, 0)

/-- `CalcMaskSize`: the bytes of the bitmask, and those that are not zero. -/
def calcMaskSize (vout : List CTxOut) : Nat × Nat :=
  scanMask (usedByte vout) ((vout.length + 5) / 8)

/-! ## Writing -/

variable (lib : PubKeyLibrary) (coins : CCoins)

def fFirst : Bool := unspent coins.vout 0

def fSecond : Bool := unspent coins.vout 1

/-- The flags in the header code. -/
def flags : Nat :=
  (if coins.fCoinBase then 1 else 0) + (if coins.fCoinStake then 2 else 0) +
    (if coins.fFirst then 4 else 0) + (if coins.fSecond then 8 else 0)

/-- The count in the header code. -/
def countedBytes : Nat :=
  (calcMaskSize coins.vout).2 - if coins.fFirst || coins.fSecond then 0 else 1

/-- The header code with a factor for the count. -/
def nCode (factor : Nat) : Nat := (factor * coins.countedBytes + coins.flags) % 2 ^ 32

/-- The loops over the outputs end: their `unsigned int` goes up to the size. -/
def loopsEnd : Bool := coins.vout.length ≤ 2 ^ 32 - 6

/-- The assertion that some output is unspent. -/
def asserted : Bool := coins.fFirst || coins.fSecond || (calcMaskSize coins.vout).2 != 0

/-- `Serialize`; nothing if it does not return. -/
def serialize : Option (List UInt8) :=
  if coins.loopsEnd && coins.asserted then
    some (VarInt.write 5 false coins.nVersion (VarInt.write 5 false (coins.nCode 16)
      ((List.range (calcMaskSize coins.vout).1).map (maskByte coins.vout) ++
        ((coins.vout.filter fun out => !out.isNull).flatMap (CTxOutCompressor.serialize lib) ++
          VarInt.write 5 false coins.nHeight []))))
  else none

/-- `GetSerializeSize`; nothing if it does not return. -/
def getSerializeSize : Option Nat :=
  if coins.loopsEnd && coins.asserted then
    some ((VarInt.size 5 coins.nVersion + VarInt.size 5 (coins.nCode 8) +
      (calcMaskSize coins.vout).1 +
      ((coins.vout.filter fun out => !out.isNull).map (CTxOutCompressor.getSerializeSize lib)).sum +
      VarInt.size 5 coins.nHeight) % 2 ^ 32)
  else none

/-! ## Reading -/

/-- The bits of a byte, from the lowest up. -/
def bits (chAvail : UInt8) : List Bool :=
  (List.range 8).map fun p => chAvail &&& (1 <<< UInt8.ofNat p) != 0

/-- Read the bitmask, until a number of bytes were not zero. -/
def readMask : Nat → List Bool → List UInt8 → Option (List Bool × List UInt8)
  | 0, vAvail, s => some (vAvail, s)
  | _ + 1, _, [] => none
  | nMaskCode + 1, vAvail, chAvail :: s =>
      readMask (if chAvail != 0 then nMaskCode else nMaskCode + 1) (vAvail ++ bits chAvail) s

/-- Read the outputs that are there. -/
def readOutputs : List Bool → List UInt8 → Option (List CTxOut × List UInt8)
  | [], s => some ([], s)
  | false :: vAvail, s => (readOutputs vAvail s).map fun (vout, s) => (CTxOut.null :: vout, s)
  | true :: vAvail, s => do
      let (txout, s) ← CTxOutCompressor.unserialize lib s
      let (vout, s) ← readOutputs vAvail s
      return (txout :: vout, s)

/-- Read an `int`. -/
def readInt (s : List UInt8) : Option (Int × List UInt8) :=
  (VarInt.read 32 0 s).map fun (n, s) => ((BitVec.ofNat 32 n).toInt, s)

/-- `Unserialize`; nothing at the end of the stream. -/
def unserialize (s : List UInt8) : Option (CCoins × List UInt8) := do
  let (nVersion, s) ← readInt s
  let (nCode, s) ← VarInt.read 32 0 s
  let nMaskCode := nCode / 16 + if nCode.testBit 2 || nCode.testBit 3 then 0 else 1
  let (vAvail, s) ← readMask nMaskCode [nCode.testBit 2, nCode.testBit 3] s
  let (vout, s) ← readOutputs lib vAvail s
  let (nHeight, s) ← readInt s
  return (cleanup ⟨nCode.testBit 0, nCode.testBit 1, vout, nHeight, nVersion⟩, s)

/-! ## The size -/

variable {lib coins}

/-- An output takes as many bytes as it says. -/
theorem length_serialize_txout (txout : CTxOut) :
    (CTxOutCompressor.serialize lib txout).length =
      CTxOutCompressor.getSerializeSize lib txout := by
  rw [CTxOutCompressor.serialize, VarInt.length_write, CScriptCompressor.length_serialize,
    CTxOutCompressor.getSerializeSize]

/-- One more byte of the mask. -/
theorem scanMask_succ (used : Nat → Bool) (count : Nat) :
    scanMask used (count + 1) =
      if used count then (count + 1, (scanMask used count).2 + 1) else scanMask used count := by
  rw [scanMask, List.range_succ, List.foldl_append]
  rfl

/-- The scan counts the bytes that are used, and the last of them ends what it keeps. -/
theorem scanMask_spec (used : Nat → Bool) (count : Nat) :
    (scanMask used count).2 = (List.range count).countP used ∧ (scanMask used count).1 ≤ count ∧
      (∀ b < count, (scanMask used count).1 ≤ b → used b = false) ∧
        ∀ last, (scanMask used count).1 = last + 1 → used last = true := by
  induction count with
  | zero =>
      exact ⟨rfl, le_rfl, fun b less => absurd less (Nat.not_lt_zero b),
          fun _ none => by cases none⟩
  | succ count ih =>
      obtain ⟨counted, bound, unused, last⟩ := ih
      rw [scanMask_succ, List.range_succ, List.countP_append, List.countP_singleton]
      cases here : used count with
      | true =>
          refine ⟨congrArg (· + 1) counted, le_rfl, fun b less kept => ?_, fun b same => ?_⟩
          · exact absurd kept (Nat.not_le.mpr less)
          · rw [← Nat.succ.inj same, here]
      | false =>
          refine ⟨counted, bound.trans (Nat.le_succ _), fun b less kept => ?_, last⟩
          rcases Nat.lt_succ_iff_lt_or_eq.mp less with lower | rfl
          · exact unused b lower kept
          · exact here

/-- The mask ends behind its last used byte. -/
theorem calcMaskSize_spec (vout : List CTxOut) :
    (calcMaskSize vout).2 = (List.range ((vout.length + 5) / 8)).countP (usedByte vout) ∧
      (calcMaskSize vout).1 ≤ (vout.length + 5) / 8 ∧
      (∀ b < (vout.length + 5) / 8, (calcMaskSize vout).1 ≤ b → usedByte vout b = false) ∧
        ∀ last, (calcMaskSize vout).1 = last + 1 → usedByte vout last = true :=
  scanMask_spec (usedByte vout) ((vout.length + 5) / 8)

/-- The bytes that `Serialize` writes. -/
def byteCount (lib : PubKeyLibrary) (coins : CCoins) : Nat :=
  VarInt.size 5 coins.nVersion + VarInt.size 5 (coins.nCode 16) + (calcMaskSize coins.vout).1 +
    ((coins.vout.filter fun out => !out.isNull).map (CTxOutCompressor.getSerializeSize lib)).sum +
    VarInt.size 5 coins.nHeight

/-- The bytes that are written, counted. -/
theorem length_of_serialize {bytes : List UInt8} (written : coins.serialize lib = some bytes) :
    bytes.length = coins.byteCount lib := by
  unfold serialize at written
  split at written
  · cases written
    have outputs : ((coins.vout.filter fun out => !out.isNull).flatMap
        (CTxOutCompressor.serialize lib)).length =
        ((coins.vout.filter fun out => !out.isNull).map
          (CTxOutCompressor.getSerializeSize lib)).sum := by
      rw [List.length_flatMap]
      exact congrArg List.sum (List.map_congr_left fun _ _ => length_serialize_txout _)
    simp only [VarInt.length_write, List.length_append, List.length_map, List.length_range,
      outputs, List.length_nil, byteCount]
    omega
  · cases written

/-- The byte of an unspent output is used. -/
theorem usedByte_of_unspent {vout : List CTxOut} {n : Nat} (here : unspent vout (n + 2) = true) :
    usedByte vout (n / 8) = true := by
  rw [usedByte, List.any_eq_true]
  refine ⟨n % 8, List.mem_range.mpr (by omega), ?_⟩
  rwa [show 2 + n / 8 * 8 + n % 8 = n + 2 by omega]

/-- Of coins that are not pruned some output is seen. -/
theorem asserted_of_unspent (left : coins.isPruned = false) : coins.asserted = true := by
  obtain ⟨n, out, found, full⟩ := (not_isPruned_iff coins).mp left
  have here : unspent coins.vout n = true := by
    rw [unspent, found, Option.any_some, full]
    rfl
  unfold asserted fFirst fSecond
  match n, here with
  | 0, here => rw [here]; rfl
  | 1, here => rw [here, Bool.or_true]; rfl
  | n + 2, here =>
      have inside : n + 2 < coins.vout.length := (List.getElem?_eq_some_iff.mp found).1
      have used := usedByte_of_unspent here
      have positive : 0 < (calcMaskSize coins.vout).2 := by
        rw [(calcMaskSize_spec coins.vout).1, List.countP_pos_iff]
        exact ⟨n / 8, List.mem_range.mpr (by omega), used⟩
      rw [Bool.or_eq_true, bne_iff_ne]
      exact Or.inr positive.ne'

/-- The header code is an `unsigned int`. -/
theorem nCode_lt (coins : CCoins) (factor : Nat) : coins.nCode factor < 2 ^ 32 :=
  Nat.mod_lt _ (by decide)

/-- **When `GetSerializeSize` is exact.** The coins have an array that the loops can go through and
fewer bytes than an `unsigned int` counts, and the two header codes have one size. -/
theorem getSerializeSize_eq_iff (lib : PubKeyLibrary) (coins : CCoins)
    (left : coins.isPruned = false) :
    (∃ bytes, coins.serialize lib = some bytes ∧ coins.getSerializeSize lib = some bytes.length) ↔
    coins.vout.length ≤ 2 ^ 32 - 6 ∧ coins.byteCount lib < 2 ^ 32 ∧
      ∀ bound ∈ VarInt.bounds, bound ≤ coins.nCode 8 ↔ bound ≤ coins.nCode 16 := by
  have asserted := asserted_of_unspent left
  rw [← VarInt.size_eq_iff (coins.nCode_lt 8) (coins.nCode_lt 16)]
  by_cases ends : coins.vout.length ≤ 2 ^ 32 - 6
  · have loops : (coins.loopsEnd && coins.asserted) = true := by
      rw [asserted, Bool.and_true, loopsEnd, decide_eq_true_eq]
      exact ends
    obtain ⟨bytes, written⟩ : ∃ bytes, coins.serialize lib = some bytes :=
      ⟨_, by rw [serialize, if_pos loops]⟩
    have total := length_of_serialize written
    have short := VarInt.size_cases (coins.nCode_lt 8)
    rw [getSerializeSize, if_pos loops]
    unfold byteCount at total ⊢
    constructor
    · rintro ⟨other, again, sized⟩
      rw [written, Option.some.injEq] at again
      rw [Option.some.injEq, ← again, total] at sized
      refine ⟨ends, ?_, ?_⟩ <;> omega
    · rintro ⟨-, small, same⟩
      refine ⟨bytes, written, ?_⟩
      rw [Option.some.injEq, total, same, Nat.mod_eq_of_lt small]
  · refine iff_of_false ?_ fun condition => ends condition.1
    rintro ⟨bytes, written, -⟩
    have loops : coins.loopsEnd = false := by
      rw [loopsEnd, decide_eq_false_iff_not]
      exact ends
    rw [serialize, loops] at written
    cases written

/-- A library without any valid key. -/
def keylessLibrary : PubKeyLibrary := ⟨fun _ => false, fun _ => none⟩

/-- Coins with some unspent outputs of one coin. -/
def plainCoins (count : Nat) : CCoins where
  vout := List.replicate count ⟨COIN, [0x51], -10⟩
  nHeight := 300000
  nVersion := 1

/-- The size of the coins of the example. -/
theorem getSerializeSize_plainCoins :
    ∃ bytes, (plainCoins 3).serialize keylessLibrary = some bytes ∧
      (plainCoins 3).getSerializeSize keylessLibrary = some bytes.length :=
  (getSerializeSize_eq_iff keylessLibrary (plainCoins 3) (by decide)).mpr (by decide +kernel)

/-- With sixty-six unspent outputs the header code takes two bytes, and one is counted. -/
theorem not_getSerializeSize_eq :
    ¬ ∀ (lib : PubKeyLibrary) (coins : CCoins), coins.isPruned = false →
      ∃ bytes, coins.serialize lib = some bytes ∧
        coins.getSerializeSize lib = some bytes.length := by
  intro always
  obtain ⟨bytes, written, sized⟩ := always keylessLibrary (plainCoins 66) (by decide +kernel)
  have length : ((plainCoins 66).serialize keylessLibrary).map List.length = some 212 := by
    decide +kernel
  have size : (plainCoins 66).getSerializeSize keylessLibrary = some 211 := by decide +kernel
  rw [written, Option.map_some, Option.some.injEq] at length
  rw [size, Option.some.injEq, length] at sized
  cases sized

/-! ## Reading back -/

/-- The bits of a byte are those that were packed. -/
theorem packBits_spec (bit : Nat → Bool) :
    bits (packBits bit) = (List.range 8).map bit ∧
      (packBits bit != 0) = (List.range 8).any bit := by
  have range : List.range 8 = [0, 1, 2, 3, 4, 5, 6, 7] := rfl
  simp only [bits, packBits, range, List.foldl_cons, List.foldl_nil, List.map_cons, List.map_nil,
    List.any_cons, List.any_nil]
  generalize bit 0 = a, bit 1 = b, bit 2 = c, bit 3 = d, bit 4 = e, bit 5 = f, bit 6 = g, bit 7 = h
  revert a b c d e f g h
  decide

/-- A bitmask whose last byte is not zero is read as a whole. -/
theorem readMask_eq (bytes : List UInt8) (vAvail : List Bool) (s : List UInt8)
    (last : ∀ byte ∈ bytes.getLast?, byte ≠ 0) :
    readMask (bytes.countP (· != 0)) vAvail (bytes ++ s) =
      some (vAvail ++ bytes.flatMap bits, s) := by
  induction bytes generalizing vAvail with
  | nil => simp [readMask]
  | cons byte rest ih =>
      have later : ∀ byte ∈ rest.getLast?, byte ≠ 0 := by
        intro other member
        refine last other ?_
        rw [List.getLast?_cons, Option.mem_def.mp member]
        rfl
      have step : readMask ((byte :: rest).countP (· != 0)) vAvail (byte :: rest ++ s) =
          readMask (rest.countP (· != 0)) (vAvail ++ bits byte) (rest ++ s) := by
        by_cases zero : byte = 0
        · have more : 0 < rest.countP (· != 0) := by
            cases found : rest.getLast? with
            | none =>
                rw [List.getLast?_eq_none_iff] at found
                exact absurd zero (last byte (by rw [found]; rfl))
            | some other =>
                exact List.countP_pos_iff.mpr ⟨other, List.mem_of_getLast? found,
                  bne_iff_ne.mpr (later other found)⟩
          obtain ⟨count, same⟩ := Nat.exists_eq_succ_of_ne_zero more.ne'
          subst zero
          rw [List.countP_cons_of_neg (by decide), same, List.cons_append, readMask]
          rfl
        · have used : (byte != 0) = true := bne_iff_ne.mpr zero
          rw [List.countP_cons_of_pos (p := (· != 0)) used, List.cons_append, readMask, used,
            if_pos rfl]
      rw [step, ih _ later, List.flatMap_cons, List.append_assoc]

/-- What the two flags and the bitmask say about the outputs. -/
theorem avail_eq (vout : List CTxOut) (size : Nat) :
    [unspent vout 0, unspent vout 1] ++ ((List.range size).map (maskByte vout)).flatMap bits =
      (List.range (2 + size * 8)).map (unspent vout) := by
  induction size with
  | zero => rfl
  | succ size ih =>
      rw [List.range_succ, List.map_append, List.flatMap_append, ← List.append_assoc, ih,
        Nat.succ_mul, ← Nat.add_assoc, List.range_add (n := 2 + size * 8), List.map_append,
        List.map_map, List.map_singleton, List.flatMap_singleton, maskByte, (packBits_spec _).1]
      rfl

/-- The bitmask as it is written is read back, with the number of bytes that are not zero. -/
theorem readMask_calcMaskSize (vout : List CTxOut) (s : List UInt8) :
    readMask (calcMaskSize vout).2 [unspent vout 0, unspent vout 1]
        ((List.range (calcMaskSize vout).1).map (maskByte vout) ++ s) =
      some ((List.range (2 + (calcMaskSize vout).1 * 8)).map (unspent vout), s) := by
  obtain ⟨counted, bound, unused, last⟩ := calcMaskSize_spec vout
  have zero : ∀ b, (maskByte vout b != 0) = usedByte vout b := fun b => (packBits_spec _).2
  have count : (calcMaskSize vout).2 =
      ((List.range (calcMaskSize vout).1).map (maskByte vout)).countP (· != 0) := by
    obtain ⟨rest, whole⟩ := Nat.exists_eq_add_of_le bound
    have tail : ((List.range rest).map ((calcMaskSize vout).1 + ·)).countP (usedByte vout) = 0 := by
      rw [List.countP_eq_zero]
      intro b member
      obtain ⟨offset, inside, rfl⟩ := List.mem_map.mp member
      have less := List.mem_range.mp inside
      rw [unused _ (by omega) (Nat.le_add_right _ _)]
      exact Bool.false_ne_true
    calc (calcMaskSize vout).2
        = (List.range ((vout.length + 5) / 8)).countP (usedByte vout) := counted
      _ = (List.range ((calcMaskSize vout).1 + rest)).countP (usedByte vout) := by
          rw [whole]
      _ = (List.range (calcMaskSize vout).1).countP (usedByte vout) := by
          rw [List.range_add, List.countP_append, tail, Nat.add_zero]
      _ = ((List.range (calcMaskSize vout).1).map (maskByte vout)).countP (· != 0) := by
          rw [List.countP_map]
          exact List.countP_congr fun b _ => by rw [Function.comp_apply, zero]
  rw [count, readMask_eq, avail_eq]
  intro byte member
  cases size : (calcMaskSize vout).1 with
  | zero =>
      rw [size] at member
      cases member
  | succ top =>
      have used : usedByte vout top = true := last top size
      rw [size, List.range_succ, List.map_append, List.map_singleton,
        List.getLast?_concat] at member
      rw [← Option.some.inj member, ← bne_iff_ne, zero, used]

/-- The flags and the bitmask reach the last unspent output. -/
theorem length_le_avail {coins : CCoins} (formed : coins.WellFormed) :
    coins.vout.length ≤ 2 + (calcMaskSize coins.vout).1 * 8 := by
  obtain ⟨-, -, unused, -⟩ := calcMaskSize_spec coins.vout
  by_contra beyond
  have long : 3 ≤ coins.vout.length := by omega
  have nonempty : coins.vout ≠ [] := List.ne_nil_of_length_pos (by omega)
  have full := formed.getLast_full _ (List.getLast?_eq_some_getLast nonempty)
  have here : unspent coins.vout (coins.vout.length - 3 + 2) = true := by
    have last := List.getLast?_eq_some_getLast nonempty
    rw [List.getLast?_eq_getElem?] at last
    rw [unspent, show coins.vout.length - 3 + 2 = coins.vout.length - 1 by omega, last,
      Option.any_some, full]
    rfl
  have used := usedByte_of_unspent here
  rw [unused _ (by omega) (by omega)] at used
  cases used

/-! ## Outputs -/

/-- An output that can be stored: it is spent, or its amount is in range and it has no rounds of its
own. -/
def Storable (params : CChainParams) (txout : CTxOut) : Prop :=
  txout = CTxOut.null ∨ params.moneyRange txout.nValue = true ∧ txout.nRounds = -10 ∧
    txout.scriptPubKey.length + CScriptCompressor.nSpecialScripts < 2 ^ 32

/-- An output that is there has an amount in range and a short script. -/
theorem null_or_range {params : CChainParams} {txout : CTxOut} (storable : Storable params txout)
    (full : txout.isNull = false) : params.moneyRange txout.nValue = true ∧ txout.nRounds = -10 ∧
      txout.scriptPubKey.length + CScriptCompressor.nSpecialScripts < 2 ^ 32 := by
  rcases storable with rfl | inside
  · cases full
  · exact inside

/-- A small word is not negative. -/
theorem toInt_ofNat_of_lt {width n : Nat} (small : 2 * n < 2 ^ width) :
    (BitVec.ofNat width n).toInt = n := by
  have same : n % 2 ^ width = n := Nat.mod_eq_of_lt (by omega)
  rw [BitVec.toInt_eq_toNat_of_lt (by rwa [BitVec.toNat_ofNat, same]), BitVec.toNat_ofNat, same]

/-- **An output is read back**, with what follows it. -/
theorem unserialize_serialize_txout {params : CChainParams} (restores : lib.Restores)
    (limit : params.nMaxMoneyOut ≤ (10 ^ 16 : Int)) {txout : CTxOut}
    (storable : Storable params txout) (full : txout.isNull = false) (rest : List UInt8) :
    CTxOutCompressor.unserialize lib (CTxOutCompressor.serialize lib txout ++ rest) =
      some (txout, rest) := by
  obtain ⟨range, rounds, fits⟩ := null_or_range storable full
  obtain ⟨nValue, scriptPubKey, nRounds⟩ := txout
  dsimp only at range rounds fits
  rw [CChainParams.moneyRange, Bool.and_eq_true, decide_eq_true_eq, decide_eq_true_eq] at range
  obtain ⟨amount, rfl⟩ : ∃ amount : Nat, nValue = (amount : Int) :=
    ⟨Int.toNat nValue, (Int.toNat_of_nonneg range.1).symm⟩
  have small : amount ≤ 10 ^ 16 := Int.ofNat_le.mp (le_trans range.2 limit)
  have unsigned : CTxOutCompressor.toUInt64 amount = amount := by
    rw [CTxOutCompressor.toUInt64]
    omega
  have read : VarInt.read 64 0 (CTxOutCompressor.serialize lib ⟨amount, scriptPubKey, nRounds⟩ ++
      rest) = some (CTxOutCompressor.compressAmount amount,
        CScriptCompressor.serialize lib scriptPubKey ++ rest) := by
    rw [CTxOutCompressor.serialize, VarInt.write_append, unsigned]
    exact VarInt.read_write_eq (by decide) (CTxOutCompressor.compressAmount_lt amount) _
  have signed : (BitVec.ofNat 64 amount).toInt = amount := toInt_ofNat_of_lt (by omega)
  subst rounds
  simp only [CTxOutCompressor.unserialize, read, Option.bind_eq_bind, Option.bind_some,
    CScriptCompressor.unserialize_serialize_script restores fits,
    CTxOutCompressor.decompressAmount_compressAmount small, signed, Option.pure_def]
  rfl

/-- **The outputs are read back.** -/
theorem readOutputs_eq {params : CChainParams} (restores : lib.Restores)
    (limit : params.nMaxMoneyOut ≤ (10 ^ 16 : Int)) {vout : List CTxOut}
    (storable : ∀ txout ∈ vout, Storable params txout) (rest : List UInt8) :
    readOutputs lib (vout.map fun out => !out.isNull)
        ((vout.filter fun out => !out.isNull).flatMap (CTxOutCompressor.serialize lib) ++ rest) =
      some (vout, rest) := by
  induction vout with
  | nil => rfl
  | cons txout vout ih =>
      have later := ih fun other member => storable other (List.mem_cons_of_mem _ member)
      cases empty : txout.isNull with
      | true =>
          have null : txout = CTxOut.null := by
            rcases storable txout List.mem_cons_self with null | ⟨range, -⟩
            · exact null
            · rw [CTxOut.isNull, beq_iff_eq] at empty
              rw [CChainParams.moneyRange, empty] at range
              cases range
          rw [List.map_cons, List.filter_cons_of_neg (by simp [empty]), empty]
          simp only [Bool.not_true, readOutputs, later, Option.map_some, null]
      | false =>
          rw [List.map_cons, List.filter_cons_of_pos (by simp [empty]), empty, List.flatMap_cons,
            List.append_assoc]
          simp only [Bool.not_false, readOutputs, Option.bind_eq_bind, Option.bind_some,
            unserialize_serialize_txout restores limit (storable txout List.mem_cons_self) empty,
            later, Option.pure_def]

/-- An `int` that is not negative is read back. -/
theorem readInt_write {value : Int} (positive : 0 ≤ value) (fits : value < 2 ^ 31)
    (rest : List UInt8) : readInt (VarInt.write 5 false value rest) = some (value, rest) := by
  obtain ⟨value, rfl⟩ : ∃ number : Nat, value = number := ⟨value.toNat, by omega⟩
  rw [readInt, VarInt.read_write_eq (by decide) (by omega), Option.map_some]
  dsimp only
  rw [toInt_ofNat_of_lt (by omega)]

/-! ## The coins -/

/-- The parts of a header code that does not wrap. -/
theorem nCode_spec {coins : CCoins} (few : coins.countedBytes < 2 ^ 28) :
    coins.nCode 16 / 16 = coins.countedBytes ∧ (coins.nCode 16).testBit 0 = coins.fCoinBase ∧
      (coins.nCode 16).testBit 1 = coins.fCoinStake ∧ (coins.nCode 16).testBit 2 = coins.fFirst ∧
        (coins.nCode 16).testBit 3 = coins.fSecond := by
  have whole : coins.nCode 16 = 16 * coins.countedBytes + coins.flags ∧ coins.flags < 16 := by
    unfold nCode flags
    cases coins.fCoinBase <;> cases coins.fCoinStake <;> cases coins.fFirst <;>
      cases coins.fSecond <;> simp only [Bool.false_eq_true, if_true, if_false] <;> omega
  rw [whole.1]
  unfold flags
  simp only [Nat.testBit_eq_decide_div_mod_eq]
  cases coins.fCoinBase <;> cases coins.fCoinStake <;> cases coins.fFirst <;>
    cases coins.fSecond <;>
    simp only [Bool.false_eq_true, if_true, if_false, decide_eq_true_eq,
      decide_eq_false_iff_not] <;>
    omega

/-- The number of bytes that the reader looks for. -/
theorem readCount_eq {coins : CCoins} (asserted : coins.asserted = true) :
    coins.countedBytes + (if coins.fFirst || coins.fSecond then 0 else 1) =
      (calcMaskSize coins.vout).2 := by
  unfold countedBytes
  cases seen : coins.fFirst || coins.fSecond with
  | true => rfl
  | false =>
      rw [CCoins.asserted, seen, Bool.false_or, bne_iff_ne] at asserted
      simp only [Bool.false_eq_true, if_false]
      omega

/-- What the reader fills in is the array with nulls after it. -/
theorem map_unspent_range {vout : List CTxOut} {size : Nat} (enough : vout.length ≤ size) :
    (List.range size).map (unspent vout) =
      (vout ++ List.replicate (size - vout.length) CTxOut.null).map fun out => !out.isNull := by
  refine List.ext_getElem? fun i => ?_
  rw [List.getElem?_map, List.getElem?_map]
  by_cases inside : i < vout.length
  · rw [List.getElem?_range (by omega), List.getElem?_append_left inside,
      List.getElem?_eq_getElem inside, Option.map_some, Option.map_some, unspent,
      List.getElem?_eq_getElem inside, Option.any_some]
  · rw [List.getElem?_append_right (Nat.not_lt.mp inside), List.getElem?_replicate]
    by_cases within : i < size
    · rw [List.getElem?_range within, if_pos (by omega), Option.map_some, Option.map_some, unspent,
        List.getElem?_eq_none (Nat.not_lt.mp inside)]
      rfl
    · rw [List.getElem?_eq_none (by rw [List.length_range]; omega), if_neg (by omega),
        Option.map_none, Option.map_none]

/-- Nulls at the end are dropped. -/
theorem rdropWhile_append_null (vout : List CTxOut) (count : Nat) :
    (vout ++ List.replicate count CTxOut.null).rdropWhile CTxOut.isNull =
      vout.rdropWhile CTxOut.isNull := by
  induction count with
  | zero => rw [List.replicate_zero, List.append_nil]
  | succ count ih =>
      rw [List.replicate_succ', ← List.append_assoc, List.rdropWhile_concat_pos _ _ _ rfl, ih]

/-- **Coins are read back**, with what follows them: coins of at most `2 ^ 31 - 6` outputs, none of
which has rounds of its own. -/
theorem unserialize_serialize {params : CChainParams}
    (network : params = CChainParams.main ∨ params = CChainParams.testnet ∨
      params = CChainParams.regtest) {lib : PubKeyLibrary} (restores : lib.Restores)
    {coins : CCoins} (left : coins.isPruned = false) (formed : coins.WellFormed)
    (storable : ∀ txout ∈ coins.vout, Storable params txout)
    (version : 0 ≤ coins.nVersion ∧ coins.nVersion < 2 ^ 31)
    (height : 0 ≤ coins.nHeight ∧ coins.nHeight < 2 ^ 31)
    (few : coins.vout.length ≤ 2 ^ 31 - 6) :
    ∃ bytes, coins.serialize lib = some bytes ∧
      ∀ rest, unserialize lib (bytes ++ rest) = some (coins, rest) := by
  have asserted := asserted_of_unspent left
  have limit : params.nMaxMoneyOut ≤ (10 ^ 16 : Int) := by
    rcases network with rfl | rfl | rfl <;> decide
  have loops : (coins.loopsEnd && coins.asserted) = true := by
    rw [asserted, Bool.and_true, loopsEnd, decide_eq_true_eq]
    omega
  have counted : coins.countedBytes < 2 ^ 28 := by
    have count := (calcMaskSize_spec coins.vout).1
    have most := List.countP_le_length (p := usedByte coins.vout)
      (l := List.range ((coins.vout.length + 5) / 8))
    rw [List.length_range] at most
    unfold countedBytes
    omega
  obtain ⟨bytes, base, stake, first, second⟩ := nCode_spec counted
  obtain ⟨padding, padded⟩ := Nat.exists_eq_add_of_le (length_le_avail formed)
  have whole : ∀ txout ∈ coins.vout ++ List.replicate padding CTxOut.null,
      Storable params txout := by
    intro txout member
    rcases List.mem_append.mp member with inside | null
    · exact storable txout inside
    · exact Or.inl (List.eq_of_mem_replicate null)
  have outputs : ((coins.vout ++ List.replicate padding CTxOut.null).filter fun out =>
      !out.isNull) = coins.vout.filter fun out => !out.isNull := by
    rw [List.filter_append, List.filter_replicate_of_neg (by decide), List.append_nil]
  have trimmed : cleanup ⟨coins.fCoinBase, coins.fCoinStake,
      coins.vout ++ List.replicate padding CTxOut.null, coins.nHeight, coins.nVersion⟩ = coins := by
    have same := formed.cleanup_eq
    rw [cleanup] at same ⊢
    dsimp only
    rw [rdropWhile_append_null]
    exact same
  have code : ∀ tail, VarInt.read 32 0 (VarInt.write 5 false (coins.nCode 16) tail) =
      some (coins.nCode 16, tail) :=
    fun tail => VarInt.read_write_eq (by decide) (coins.nCode_lt 16) tail
  have mask : ∀ tail, readMask (calcMaskSize coins.vout).2 [coins.fFirst, coins.fSecond]
      ((List.range (calcMaskSize coins.vout).1).map (maskByte coins.vout) ++ tail) =
        some ((coins.vout ++ List.replicate padding CTxOut.null).map fun out => !out.isNull,
          tail) := by
    intro tail
    have read := readMask_calcMaskSize coins.vout tail
    rw [map_unspent_range (length_le_avail formed), padded, Nat.add_sub_cancel_left] at read
    exact read
  have filled := readOutputs_eq restores limit whole
  rw [outputs] at filled
  refine ⟨_, by rw [serialize, if_pos loops], fun rest => ?_⟩
  simp only [VarInt.write_append, List.append_assoc, List.nil_append, unserialize,
    readInt_write version.1 version.2, code, Option.bind_eq_bind, Option.bind_some, bytes, base,
    stake, first, second, readCount_eq asserted, mask, filled, readInt_write height.1 height.2,
    Option.pure_def, trimmed]

/-- A library without keys restores all of them. -/
theorem restores_keyless : keylessLibrary.Restores :=
  fun _ _ _ _ _ valid => by cases valid

/-- The outputs of the example can be stored. -/
theorem storable_plainCoins {count : Nat} :
    ∀ txout ∈ (plainCoins count).vout, Storable CChainParams.main txout := by
  intro txout member
  rw [List.eq_of_mem_replicate member]
  exact Or.inr ⟨by decide, rfl, by decide⟩

/-- The coins of the example are well formed. -/
theorem wellFormed_plainCoins (count : Nat) : (plainCoins count).WellFormed where
  eq_hole txout member null := by
    rw [List.eq_of_mem_replicate member] at null
    cases null
  getLast_full txout last := by
    rw [List.eq_of_mem_replicate (List.mem_of_getLast? last)]
    rfl

/-- The coins of the example come back. -/
theorem unserialize_serialize_plainCoins :
    ∃ bytes, (plainCoins 3).serialize keylessLibrary = some bytes ∧
      ∀ rest, unserialize keylessLibrary (bytes ++ rest) = some (plainCoins 3, rest) :=
  unserialize_serialize (Or.inl rfl) restores_keyless (by decide) (wellFormed_plainCoins 3)
    storable_plainCoins (by decide) (by decide) (by decide)

/-- As many outputs are read as the mask has bits. -/
theorem length_of_readOutputs {vAvail : List Bool} {s rest : List UInt8} {vout : List CTxOut}
    (read : readOutputs lib vAvail s = some (vout, rest)) : vout.length = vAvail.length := by
  induction vAvail generalizing s rest vout with
  | nil =>
      cases read
      rfl
  | cons avail vAvail ih =>
      cases avail with
      | false =>
          obtain ⟨⟨others, after⟩, more, same⟩ := Option.map_eq_some_iff.mp read
          cases same
          rw [List.length_cons, List.length_cons, ih more]
      | true =>
          simp only [readOutputs, Option.bind_eq_bind, Option.bind_eq_some_iff, Option.pure_def]
            at read
          obtain ⟨⟨txout, after⟩, -, ⟨others, later⟩, more, same⟩ := read
          cases same
          rw [List.length_cons, List.length_cons, ih more]

/-- The coins of the example are not pruned. -/
theorem isPruned_plainCoins {count : Nat} (positive : 0 < count) :
    (plainCoins count).isPruned = false := by
  rw [not_isPruned_iff]
  refine ⟨0, ⟨COIN, [0x51], -10⟩, ?_, rfl⟩
  rw [plainCoins, List.getElem?_replicate, if_pos positive]

/-- Every output of the example is unspent. -/
theorem unspent_plainCoins {count i : Nat} (inside : i < count) :
    unspent (plainCoins count).vout i = true := by
  rw [unspent, plainCoins, List.getElem?_replicate, if_pos inside]
  rfl

/-- With one output more than is allowed the count of the header code is gone. -/
theorem nCode_plainCoins : (plainCoins (2 ^ 31 - 5)).nCode 16 = 12 := by
  have first : (plainCoins (2 ^ 31 - 5)).fFirst = true := unspent_plainCoins (by decide)
  have second : (plainCoins (2 ^ 31 - 5)).fSecond = true := unspent_plainCoins (by decide)
  have length : (plainCoins (2 ^ 31 - 5)).vout.length = 2 ^ 31 - 5 := List.length_replicate
  have count : (calcMaskSize (plainCoins (2 ^ 31 - 5)).vout).2 = 2 ^ 28 := by
    have used : ∀ b ∈ List.range ((2 ^ 31 - 5 + 5) / 8),
        usedByte (plainCoins (2 ^ 31 - 5)).vout b = true := by
      intro b member
      have less := List.mem_range.mp member
      have here : unspent (plainCoins (2 ^ 31 - 5)).vout (b * 8 + 2) = true :=
        unspent_plainCoins (by omega)
      have used := usedByte_of_unspent here
      rwa [Nat.mul_div_cancel _ (by decide)] at used
    rw [(calcMaskSize_spec _).1, length, List.countP_eq_length.mpr used, List.length_range]
    decide
  rw [nCode, countedBytes, count, flags, first, second]
  rfl

/-- A header code of twelve stands for two outputs. -/
theorem length_of_nCode {coins : CCoins} {bytes rest : List UInt8} (code : coins.nCode 16 = 12)
    (version : 0 ≤ coins.nVersion ∧ coins.nVersion < 2 ^ 31)
    (written : coins.serialize lib = some bytes) {other : CCoins}
    (read : unserialize lib bytes = some (other, rest)) : other.vout.length ≤ 2 := by
  obtain ⟨tail, rfl⟩ : ∃ tail, bytes =
      VarInt.write 5 false coins.nVersion (VarInt.write 5 false (12 : Nat) tail) := by
    unfold serialize at written
    split at written
    · cases written
      rw [code]
      exact ⟨_, rfl⟩
    · cases written
  have header : VarInt.read 32 0 (VarInt.write 5 false (12 : Nat) tail) = some (12, tail) :=
    VarInt.read_write_eq (by decide) (by decide) tail
  simp only [unserialize, readInt_write version.1 version.2, header, Option.bind_eq_bind,
    Option.bind_some, Option.bind_eq_some_iff, Option.pure_def] at read
  obtain ⟨⟨vAvail, after⟩, mask, ⟨vout, later⟩, outputs, ⟨nHeight, last⟩, -, same⟩ := read
  cases same
  have none : (12 / 16 + if (Nat.testBit 12 2 || Nat.testBit 12 3) = true then 0 else 1) = 0 := by
    decide
  have two : vAvail.length = 2 := by
    rw [none, readMask] at mask
    cases mask
    rfl
  calc (vout.rdropWhile CTxOut.isNull).length
      ≤ vout.length := (List.rdropWhile_prefix CTxOut.isNull vout).length_le
    _ = 2 := (length_of_readOutputs outputs).trans two

/-- Coins of one output with some rounds. -/
def roundCoins (nRounds : Int) : CCoins where
  vout := [⟨COIN, [0x51], nRounds⟩]
  nHeight := 300000
  nVersion := 1

/-- Coins with rounds are well formed. -/
theorem wellFormed_roundCoins (nRounds : Int) : (roundCoins nRounds).WellFormed where
  eq_hole txout member null := by
    rw [List.mem_singleton.mp member] at null
    cases null
  getLast_full txout last := by
    rw [← Option.some.inj last]
    rfl

/-- But for the rounds, they can be stored. -/
theorem storable_roundCoins {nRounds : Int} :
    ∀ txout ∈ (roundCoins nRounds).vout, txout = CTxOut.null ∨
      CChainParams.main.moneyRange txout.nValue = true ∧
        txout.scriptPubKey.length + CScriptCompressor.nSpecialScripts < 2 ^ 32 := by
  intro txout member
  rw [List.mem_singleton.mp member]
  have range : CChainParams.main.moneyRange COIN = true := by decide
  exact Or.inr ⟨range, (by decide : 1 + 6 < 2 ^ 32)⟩

/-- Coins with an output of another number of rounds are not read back, and neither are coins of
more outputs than the header code counts. -/
theorem not_unserialize_serialize :
    (¬ ∀ (lib : PubKeyLibrary) (coins : CCoins), lib.Restores → coins.isPruned = false →
      coins.WellFormed → (∀ txout ∈ coins.vout, txout = CTxOut.null ∨
        CChainParams.main.moneyRange txout.nValue = true ∧
          txout.scriptPubKey.length + CScriptCompressor.nSpecialScripts < 2 ^ 32) →
      0 ≤ coins.nVersion ∧ coins.nVersion < 2 ^ 31 → 0 ≤ coins.nHeight ∧ coins.nHeight < 2 ^ 31 →
      coins.vout.length ≤ 2 ^ 31 - 6 →
        ∃ bytes, coins.serialize lib = some bytes ∧
          ∀ rest, unserialize lib (bytes ++ rest) = some (coins, rest)) ∧
    ¬ ∀ (lib : PubKeyLibrary) (coins : CCoins), lib.Restores → coins.isPruned = false →
      coins.WellFormed → (∀ txout ∈ coins.vout, Storable CChainParams.main txout) →
      0 ≤ coins.nVersion ∧ coins.nVersion < 2 ^ 31 → 0 ≤ coins.nHeight ∧ coins.nHeight < 2 ^ 31 →
        ∃ bytes, coins.serialize lib = some bytes ∧
          ∀ rest, unserialize lib (bytes ++ rest) = some (coins, rest) := by
  constructor
  · intro always
    obtain ⟨bytes, written, read⟩ := always keylessLibrary (roundCoins 0) restores_keyless
      (by decide) (wellFormed_roundCoins 0) storable_roundCoins (by decide) (by decide) (by decide)
    have others : ((roundCoins 0).serialize keylessLibrary).bind (unserialize keylessLibrary) =
        some (roundCoins (-10), []) := by
      decide +kernel
    have whole := read []
    rw [List.append_nil] at whole
    rw [written, Option.bind_some, whole] at others
    exact absurd others (by decide)
  · intro always
    obtain ⟨bytes, written, read⟩ := always keylessLibrary (plainCoins (2 ^ 31 - 5))
      restores_keyless (isPruned_plainCoins (by decide))
        (wellFormed_plainCoins _) storable_plainCoins (by decide)
      (by decide)
    have whole := read []
    rw [List.append_nil] at whole
    have short := length_of_nCode nCode_plainCoins (by decide) written whole
    rw [plainCoins, List.length_replicate] at short
    exact absurd short (by decide)

end CCoins

end GiantCore
