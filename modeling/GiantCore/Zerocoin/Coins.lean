import GiantCore.Chain.Params
import GiantCore.Primitives.Block

/-! # Zerocoins

Denominations, minted coins and spends, after `libzerocoin` and `zgicchain.cpp`.
The number theory behind them is a parameter: what a serialized spend holds,
whether its proofs verify, which numbers are prime and how an accumulator grows.
-/

namespace GiantCore

/-- An integer of any size. -/
abbrev CBigNum := Int

/-- `setvch`: bytes from the lowest up, with the sign in the last bit. -/
def CBigNum.setvch (vch : List UInt8) : CBigNum :=
  let magnitude : Nat := vch.foldr (fun byte rest => byte.toNat + 256 * rest) 0
  if vch.getLast?.any fun byte => byte &&& 0x80 != 0 then
    -(magnitude - 2 ^ (8 * vch.length - 1) : Int)
  else magnitude

inductive CoinDenomination where
  /-- `ZQ_ERROR`. -/
  | error
  | one
  | five
  | ten
  | fifty
  | oneHundred
  | fiveHundred
  | oneThousand
  | fiveThousand
  deriving DecidableEq, Repr

namespace CoinDenomination

/-- The denominations from the smallest up, without the error. -/
def zerocoinDenomList : List CoinDenomination :=
  [one, five, ten, fifty, oneHundred, fiveHundred, oneThousand, fiveThousand]

/-- `ZerocoinDenominationToInt`. -/
def toInt : CoinDenomination → Int
  | error => 0
  | one => 1
  | five => 5
  | ten => 10
  | fifty => 50
  | oneHundred => 100
  | fiveHundred => 500
  | oneThousand => 1000
  | fiveThousand => 5000

/-- `IntToZerocoinDenomination`. -/
def ofInt (amount : Int) : CoinDenomination :=
  (zerocoinDenomList.find? fun denomination => denomination.toInt == amount).getD error

/-- `AmountToZerocoinDenomination`: only whole coins have a denomination. -/
def ofAmount (amount : CAmount) : CoinDenomination :=
  if amount - COIN * amount.tdiv COIN = 0 then ofInt (amount.tdiv COIN) else error

/-- `ZerocoinDenominationToAmount`. -/
def toAmount (denomination : CoinDenomination) : CAmount := COIN * denomination.toInt

end CoinDenomination

/-- A minted coin, under the parameters of the second version. -/
structure PublicCoin where
  value : CBigNum
  denomination : CoinDenomination
  deriving DecidableEq, Repr

/-- An accumulator, under the parameters of the first version or the second. -/
structure Accumulator where
  useModulusV1 : Bool
  denomination : CoinDenomination
  value : CBigNum
  deriving DecidableEq, Repr

/-- What the rules read of a deserialized spend, and its proofs and signature as
they were sent. -/
structure Libzerocoin.SpendData where
  denomination : CoinDenomination
  txOutHash : Uint256
  accumulatorChecksum : UInt32
  coinSerialNumber : CBigNum
  version : UInt8
  /-- The spend type is `STAKE`. -/
  isStake : Bool
  proofs : List UInt8
  deriving DecidableEq, Repr

/-- A deserialized spend, with the accumulator parameters it was read under. -/
structure Libzerocoin.CoinSpend extends Libzerocoin.SpendData where
  accumulatorV1 : Bool
  deriving DecidableEq, Repr

/-- The parts of `libzerocoin` that the node calls. -/
structure Libzerocoin where
  /-- `accumulatorBase` of `Zerocoin_Params`. -/
  accumulatorBase : Bool → CBigNum
  accumulatorModulus : Bool → CBigNum
  minCoinValue : CBigNum
  maxCoinValue : CBigNum
  isPrime : CBigNum → Bool
  /-- `pow_mod`. -/
  powMod : CBigNum → CBigNum → CBigNum → CBigNum
  /-- `GetChecksum`: 32 bits of a hash. -/
  getChecksum : CBigNum → UInt32
  /-- The data of a serialized spend; nothing where deserialization throws. -/
  deserializeSpend : List UInt8 → Option Libzerocoin.SpendData
  /-- `CoinSpend::Verify`. -/
  verifySpend : Libzerocoin.CoinSpend → Accumulator → Bool → Bool
  /-- `HasValidSignature`; nothing where it throws on an invalid serial. -/
  hasValidSignature : Libzerocoin.CoinSpend → Option Bool
  /-- `IsValidSerial`, under the parameters of a version. -/
  isValidSerial : Bool → CBigNum → Bool

/-- Plain stand-ins: spends are a serial, a checksum and the version whose
parameters they were made for. Concrete examples are about these. -/
def Libzerocoin.plain : Libzerocoin where
  accumulatorBase _ := 961
  accumulatorModulus useModulusV1 := if useModulusV1 then 1147 else 1517
  minCoinValue := 2
  maxCoinValue := 1000
  isPrime value := value.toNat % 2 == 1
  powMod value exponent modulus := value ^ exponent.toNat % modulus
  getChecksum value := UInt32.ofNat value.toNat
  deserializeSpend
    | serial :: checksum :: proofs =>
        some { denomination := .one, txOutHash := 0, accumulatorChecksum := checksum.toUInt32
               coinSerialNumber := serial.toNat, version := 2, isStake := false, proofs }
    | _ => none
  verifySpend spend accumulator _ :=
    spend.accumulatorV1 == accumulator.useModulusV1 &&
      spend.proofs == [if accumulator.useModulusV1 then 1 else 2]
  hasValidSignature spend := some (!spend.proofs.isEmpty)
  isValidSerial _ serial := decide (0 < serial)

/-- `BIGNUM_SIZE`. -/
def bignumSize : Nat := 4

/-- `SCRIPT_OFFSET`. -/
def scriptOffset : Nat := 6

section

variable (lib : Libzerocoin)

/-- A new accumulator holds the base. -/
def Accumulator.fresh (useModulusV1 : Bool) (denomination : CoinDenomination) : Accumulator :=
  { useModulusV1, denomination, value := lib.accumulatorBase useModulusV1 }

/-- An accumulator of a given value, where zero stands for the base. -/
def Accumulator.ofValue (useModulusV1 : Bool) (denomination : CoinDenomination)
    (bnValue : CBigNum) : Accumulator :=
  { useModulusV1, denomination
    value := if bnValue ≠ 0 then bnValue else lib.accumulatorBase useModulusV1 }

/-- `increment`. -/
def Accumulator.increment (accumulator : Accumulator) (bnValue : CBigNum) : Accumulator :=
  { accumulator with
    value := lib.powMod accumulator.value bnValue
      (lib.accumulatorModulus accumulator.useModulusV1) }

/-- `PublicCoin::validate`. -/
def PublicCoin.validate (coin : PublicCoin) : Bool :=
  !decide (lib.minCoinValue ≥ coin.value) && !decide (coin.value > lib.maxCoinValue) &&
    lib.isPrime coin.value

/-- `TxInToZerocoinSpend`, with the accumulator parameters of the tip's version. -/
def txInToZerocoinSpend (accumulatorV1 : Bool) (txin : CTxIn) : Option Libzerocoin.CoinSpend :=
  (lib.deserializeSpend (txin.scriptSig.drop bignumSize)).map fun data =>
    { data with accumulatorV1 }

end

/-- `TxOutToPublicCoin`: the value of a mint has to be a denomination. A script that ends before the
coin gives none either: the copy of its bytes throws. -/
def txOutToPublicCoin (txout : CTxOut) : Option PublicCoin :=
  let denomination := CoinDenomination.ofAmount txout.nValue
  if txout.scriptPubKey.length < scriptOffset ∨ denomination = .error then none
  else some { value := CBigNum.setvch (txout.scriptPubKey.drop scriptOffset), denomination }

section

variable (validOutPoint : COutPoint → Bool) (fFilterInvalid : Bool)

/-- The mints among the outputs of a transaction from an index on. The first
output that is marked invalid ends the list. -/
def txMints (hash : Uint256) : Nat → List CTxOut → Option (List PublicCoin)
  | _, [] => some []
  | i, txOut :: vout =>
      if fFilterInvalid && !validOutPoint ⟨hash, UInt32.ofNat i⟩ then some []
      else if !txOut.isZerocoinMint then txMints hash (i + 1) vout
      else do
        let pubCoin ← txOutToPublicCoin txOut
        let rest ← txMints hash (i + 1) vout
        return pubCoin :: rest

/-- The mints of one transaction, unless it spends an output that is marked invalid. -/
def txPubcoins (tx : CTransaction) : Option (List PublicCoin) :=
  if !tx.hasZerocoinMintOutputs then some []
  else if fFilterInvalid && !tx.vin.all fun txin => validOutPoint txin.prevout then some []
  else txMints validOutPoint fFilterInvalid tx.hash 0 tx.vout

/-- `BlockToPubcoinList`. -/
def blockToPubcoinList (block : CBlock) : Option (List PublicCoin) :=
  block.vtx.foldlM (fun listPubcoins tx =>
    (txPubcoins validOutPoint fFilterInvalid tx).map (listPubcoins ++ ·)) []

/-- A block without mints has no coins to accumulate. -/
theorem blockToPubcoinList_eq_nil {block : CBlock}
    (noMints : ∀ tx ∈ block.vtx, tx.hasZerocoinMintOutputs = false) :
    blockToPubcoinList validOutPoint fFilterInvalid block = some [] := by
  unfold blockToPubcoinList
  generalize block.vtx = vtx at noMints
  induction vtx with
  | nil => rfl
  | cons tx rest ih =>
      have first : txPubcoins validOutPoint fFilterInvalid tx = some [] := by
        simp [txPubcoins, noMints tx List.mem_cons_self]
      rw [List.foldlM_cons, first]
      exact ih fun other member => noMints other (List.mem_cons_of_mem tx member)

end

end GiantCore
