import Mathlib.Algebra.Order.Ring.Int
import Mathlib.Data.BitVec
import Mathlib.Data.List.DropRight
import Mathlib.Tactic.Common

/-! # Transactions

The data of `amount.h`, `script/script.h` and `primitives/transaction.h` that
the coin database, the masternode payments and the budget read. A transaction
carries its identifier, as `CTransaction` caches it in `hash`; scripts are their
byte strings, and amounts are unbounded integers with the overflow tests of the
source written out where it makes them.
-/

namespace GiantCore

/-- A 256-bit unsigned word, with wrapping arithmetic. -/
abbrev Uint256 := BitVec 256

/-- Words are keys of maps, which compare them as numbers. -/
instance : Std.TransOrd Uint256 := BitVec.instTransOrd

/-- A number stored in an `int`. -/
def storeInt (value : Int) : Int := value.bmod (2 ^ 32)

theorem storeInt_bounds (value : Int) : -2 ^ 31 ≤ storeInt value ∧ storeInt value < 2 ^ 31 := by
  have low := @Int.le_bmod value (2 ^ 32) (by decide)
  have high := @Int.bmod_lt value (2 ^ 32) (by decide)
  unfold storeInt
  omega

/-- A number that fits into an `int` is stored as it is. -/
theorem storeInt_of_bounds {value : Int} (low : -2 ^ 31 ≤ value) (high : value < 2 ^ 31) :
    storeInt value = value :=
  Int.bmod_eq_of_le (by omega) (by omega)

/-- An amount in the smallest unit, `int64_t` in the source. -/
abbrev CAmount := Int

/-- What a 64-bit variable holds after a value was stored in it. -/
def wrapAmount (value : Int) : CAmount := value.bmod (2 ^ 64)

/-- A value that fits into 64 bits is stored as it is. -/
theorem wrapAmount_of_bounds {value : Int} (low : -2 ^ 63 ≤ value) (high : value < 2 ^ 63) :
    wrapAmount value = value :=
  Int.bmod_eq_of_le (by omega) (by omega)

/-- One coin. -/
def COIN : CAmount := 100000000

/-- A serialized script. -/
abbrev CScript := List UInt8

namespace CScript

/-- `OP_RETURN`. -/
def opReturn : UInt8 := 0x6a

/-- `OP_ZEROCOINMINT`. -/
def opZerocoinMint : UInt8 := 0xc1

/-- `OP_ZEROCOINSPEND`. -/
def opZerocoinSpend : UInt8 := 0xc2

def startsWithOpcode (script : CScript) (opcode : UInt8) : Bool :=
  script.head? == some opcode

def isZerocoinMint (script : CScript) : Bool := script.startsWithOpcode opZerocoinMint

def isZerocoinSpend (script : CScript) : Bool := script.startsWithOpcode opZerocoinSpend

/-- Whether the script is bound to fail, so that its output is pruned on entry. -/
def isUnspendable (script : CScript) : Bool := script.head? == some opReturn

/-- The bytes of a number from the lowest up, at most as many as given. -/
def lowBytes : Nat → Nat → List UInt8
  | 0, _ => []
  | count + 1, value =>
      if value = 0 then [] else UInt8.ofNat (value % 256) :: lowBytes count (value / 256)

/-- `CScriptNum::serialize`: the sign is the highest bit of the last byte. -/
def serializeNum (value : Int) : List UInt8 :=
  let bytes := lowBytes 8 value.natAbs
  match bytes.getLast? with
  | none => []
  | some top =>
      if top &&& 0x80 != 0 then bytes ++ [if value < 0 then 0x80 else 0]
      else if value < 0 then bytes.dropLast ++ [top ||| 0x80]
      else bytes

/-- `push_int64`: small numbers have an opcode of their own. -/
def pushInt64 (n : Int) : CScript :=
  if n = -1 ∨ (1 ≤ n ∧ n ≤ 16) then [UInt8.ofNat (n + 0x50).toNat]
  else if n = 0 then [0x00]
  else UInt8.ofNat (serializeNum n).length :: serializeNum n

end CScript

/-- An outpoint: a transaction identifier and an index into its outputs. -/
structure COutPoint where
  hash : Uint256
  n : UInt32
  deriving DecidableEq, Repr

namespace COutPoint

/-- `SetNull`: hash zero and the largest index. -/
def null : COutPoint := ⟨0, 0xffffffff⟩

def isNull (out : COutPoint) : Bool := out.hash == 0 && out.n == 0xffffffff

end COutPoint

/-- A transaction input. -/
structure CTxIn where
  prevout : COutPoint
  scriptSig : CScript := []
  nSequence : UInt32 := 0xffffffff
  deriving DecidableEq, Repr

/-- A zerocoin spend has no previous transaction and a marked script. -/
def CTxIn.isZerocoinSpend (txin : CTxIn) : Bool :=
  txin.prevout.hash == 0 && CScript.isZerocoinSpend txin.scriptSig

/-- A transaction output. The derived equality is the source's: value, script
and `nRounds`. -/
structure CTxOut where
  nValue : CAmount
  scriptPubKey : CScript
  nRounds : Int := -10
  deriving DecidableEq, Repr

namespace CTxOut

/-- `SetNull`, the mark of a spent output. -/
def null : CTxOut := ⟨-1, [], -10⟩

def isNull (out : CTxOut) : Bool := out.nValue == -1

def isEmpty (out : CTxOut) : Bool := out.nValue == 0 && out.scriptPubKey.isEmpty

def isZerocoinMint (out : CTxOut) : Bool := CScript.isZerocoinMint out.scriptPubKey

@[simp] theorem isNull_null : null.isNull = true := rfl

end CTxOut

/-- A transaction, with its cached identifier. -/
structure CTransaction where
  hash : Uint256
  nVersion : Int := 1
  vin : List CTxIn
  vout : List CTxOut
  nLockTime : UInt32 := 0
  deriving DecidableEq, Repr

namespace CTransaction

def hasZerocoinSpendInputs (tx : CTransaction) : Bool := tx.vin.any CTxIn.isZerocoinSpend

def hasZerocoinMintOutputs (tx : CTransaction) : Bool := tx.vout.any CTxOut.isZerocoinMint

def containsZerocoins (tx : CTransaction) : Bool :=
  tx.hasZerocoinSpendInputs || tx.hasZerocoinMintOutputs

/-- One null input and no zerocoins. -/
def isCoinBase (tx : CTransaction) : Bool :=
  match tx.vin with
  | [txin] => txin.prevout.isNull && !tx.containsZerocoins
  | _ => false

/-- A first input that is no coinbase input, and a first output that is empty. -/
def isCoinStake (tx : CTransaction) : Bool :=
  match tx.vin, tx.vout with
  | txin :: _, first :: _ :: _ =>
      !(txin.prevout.isNull && !txin.isZerocoinSpend) && first.isEmpty
  | _, _ => false

/-- The largest `int64_t`. -/
def maxInt64 : Int := 2 ^ 63 - 1

/-- `GetValueOut`: the total of the outputs, or nothing where the source throws
on a negative value or on a total past the 64-bit range. -/
def getValueOut (tx : CTransaction) : Option CAmount :=
  tx.vout.foldlM (fun nValueOut out =>
    if out.nValue < 0 then none
    else if maxInt64 < nValueOut + out.nValue then none
    else some (nValueOut + out.nValue)) 0

theorem sum_nValue_nonneg {vout : List CTxOut} (nonneg : ∀ out ∈ vout, 0 ≤ out.nValue) :
    0 ≤ (vout.map CTxOut.nValue).sum := by
  induction vout with
  | nil => exact Int.le_refl 0
  | cons out rest ih =>
      rw [List.map_cons, List.sum_cons]
      exact Int.add_nonneg (nonneg out List.mem_cons_self)
        (ih fun other member => nonneg other (List.mem_cons_of_mem _ member))

/-- Outputs that are not negative add up while the total is in range. -/
theorem getValueOut_eq_some {tx : CTransaction} (nonneg : ∀ out ∈ tx.vout, 0 ≤ out.nValue)
    (small : (tx.vout.map CTxOut.nValue).sum ≤ maxInt64) :
    tx.getValueOut = some (tx.vout.map CTxOut.nValue).sum := by
  have outputs : ∀ (vout : List CTxOut) (start : CAmount), (∀ out ∈ vout, 0 ≤ out.nValue) →
      start + (vout.map CTxOut.nValue).sum ≤ maxInt64 →
      vout.foldlM (fun (nValueOut : CAmount) (out : CTxOut) =>
        if out.nValue < 0 then none
        else if maxInt64 < nValueOut + out.nValue then none
        else some (nValueOut + out.nValue)) start =
          some (start + (vout.map CTxOut.nValue).sum) := by
    intro vout
    induction vout with
    | nil =>
        intro start _ _
        simp
    | cons out rest ih =>
        intro start nonneg small
        have others := fun other member => nonneg other (List.mem_cons_of_mem out member)
        rw [List.map_cons, List.sum_cons, ← Int.add_assoc] at small ⊢
        have first : ¬ out.nValue < 0 := Int.not_lt.mpr (nonneg out List.mem_cons_self)
        have inRange : ¬ maxInt64 < start + out.nValue := by
          apply Int.not_lt.mpr
          exact Int.le_trans (Int.le_add_of_nonneg_right (sum_nValue_nonneg others)) small
        rw [List.foldlM_cons, if_neg first, if_neg inRange]
        exact ih _ others small
  simpa [getValueOut] using outputs tx.vout 0 nonneg (by simpa using small)

end CTransaction

end GiantCore
