import Mathlib.Data.Int.ModEq
import Mathlib.RingTheory.Coprime.Lemmas
import GiantCore.Zerocoin.AccumulatedMints

/-! # Accumulator witnesses

The part of `accumulators.cpp` that makes the witness of a coin in one go. A
checkpoint stands for the mints of all blocks up to eleven below it. The witness
starts from the checkpoint after the coin's ten blocks, which stands for the mints
before them, adds the mints from there up to a stop height but not the coin, and is
compared with the checkpoint ten blocks above the stop height.
-/

namespace GiantCore

open CoinDenomination

/-- Why there is no witness. -/
inductive WitnessFailure where
  /-- The function returns false, with the text of `error`. -/
  | error (text : String)
  /-- An exception that the function does not catch. -/
  | exception (text : String)
  /-- The code reads a block index that is not there. -/
  | nullIndex
  /-- A loop goes on forever. -/
  | endless
  deriving DecidableEq, Repr

/-- What the witness code reads: the chain with its accumulator values, and where the
coins were minted. -/
structure WitnessContext extends AccumulatorContext where
  store : AccumulatorStore
  /-- `vMintDenominationsInBlock` of the block index at a height. -/
  vMintDenominationsInBlock : Nat → List CoinDenomination
  /-- The transaction of a mint in the `zerocoinDB`. -/
  readCoinMint : CBigNum → Option Uint256
  /-- `GetTransaction`: the block of a transaction. -/
  getTransaction : Uint256 → Option Uint256
  isTransactionInChain : Uint256 → Bool
  /-- The height of a block in `mapBlockIndex`. -/
  heightOf : Uint256 → Nat
  /-- `LockMethod` gets the lock. -/
  lockMethod : Bool

/-! ## Accumulators and witnesses -/

section

variable (lib : Libzerocoin)

/-- The value of an accumulator after some coins, in turn. -/
def foldCoins (value : CBigNum) (coins : List CBigNum) : CBigNum :=
  coins.foldl (fun value coin => lib.powMod value coin (lib.accumulatorModulus false)) value

/-- `Accumulator::accumulate`, which throws on coins it cannot take. -/
def Accumulator.accumulate (accumulator : Accumulator) (coin : PublicCoin) :
    Except String Accumulator :=
  if accumulator.value = 0 then .error "Accumulator is not initialized"
  else if accumulator.denomination ≠ coin.denomination then .error "Wrong denomination for coin"
  else if coin.validate lib then .ok (accumulator.increment lib coin.value)
  else .error "Coin is not valid"

structure AccumulatorWitness where
  witness : Accumulator
  element : PublicCoin
  deriving DecidableEq, Repr

/-- `resetValue`. -/
def AccumulatorWitness.resetValue (witness : AccumulatorWitness) (checkpoint : Accumulator)
    (coin : PublicCoin) : AccumulatorWitness :=
  { witness := { witness.witness with value := checkpoint.value }, element := coin }

/-- `VerifyWitness`: with its element added the witness is the accumulator. -/
def AccumulatorWitness.verifyWitness (witness : AccumulatorWitness) (accumulator : Accumulator)
    (publicCoin : PublicCoin) : Except String Bool := do
  let temp ← witness.witness.accumulate lib witness.element
  return temp.value == accumulator.value && witness.element == publicCoin

end

/-! ## Reading the chain -/

/-- `GetAccumulatorValueFromChecksum`: a value that is not in the database is zero. -/
def getAccumulatorValueFromChecksum (store : AccumulatorStore) (nChecksum : UInt32)
    (fMemoryOnly : Bool) : Option CBigNum :=
  match store.mapAccumulatorValues nChecksum with
  | some bnAccValue => some bnAccValue
  | none => if fMemoryOnly then none else some ((store.zerocoinDB nChecksum).getD 0)

/-- `GetAccumulatorValueFromDB`. -/
def getAccumulatorValueFromDB (store : AccumulatorStore) (nCheckpoint : Uint256)
    (denom : CoinDenomination) : Option CBigNum :=
  getAccumulatorValueFromChecksum store (parseChecksum nCheckpoint denom) false

/-- `InvalidCheckpointRange`. -/
def invalidCheckpointRange (params : CChainParams) (nHeight : Int) : Bool :=
  nHeight > params.nBlockLastGoodCheckpoint && nHeight < params.nBlockRecalculateAccumulators

namespace WitnessContext

variable (ctx : WitnessContext)

/-- `chainActive.Height()`. -/
def height : Int := ctx.chainActive.length - 1

/-- `chainActive[nHeight]`. -/
def pindexAt (nHeight : Int) : Option ChainEntry :=
  if nHeight < 0 then none else ctx.chainActive[nHeight.toNat]?

/-- `SearchMintHeightOf`. Its exception is caught where it is called. -/
def searchMintHeightOf (value : CBigNum) : Except WitnessFailure Nat := do
  let some txid := ctx.readCoinMint value
    | throw (.error "searchForMintHeightOf:: failed to read mint from db")
  let some hashBlock := ctx.getTransaction txid
    | throw (.error "searchForMintHeightOf:: failed to read tx")
  if !ctx.isTransactionInChain txid then
    throw (.error "searchForMintHeightOf:: mint tx is not in chain")
  return ctx.heightOf hashBlock

/-- `GetPubcoinFromBlock`. Its exception is caught as well. -/
def getPubcoinFromBlock (nHeight : Nat) : Except WitnessFailure (List PublicCoin) := do
  let some block := ctx.chainActive[nHeight]?.bind ChainEntry.block
    | throw (.error "GetPubcoinFromBlock: failed to read block from disk")
  let some listPubcoins := blockToPubcoinList ctx.validOutPoint true block
    | throw (.error "GetPubcoinFromBlock: failed to get zerocoin mintlist from block")
  return listPubcoins

/-- The coins of a block that go into the witness of a coin: those of its denomination, but
not those with its value in the block where it was minted. -/
def addedCoins (coin : PublicCoin) (nHeightMintAdded nHeight : Nat) (isWitness : Bool)
    (listPubcoins : List PublicCoin) : List CBigNum :=
  (listPubcoins.filter fun pubcoin =>
    decide (pubcoin.denomination = coin.denomination) &&
      !(isWitness && decide (nHeight = nHeightMintAdded) &&
        decide (pubcoin.value = coin.value))).map PublicCoin.value

/-- `AddBlockMintsToAccumulator` for a coin: the accumulator after the block, and how many
mints were added. -/
def addBlockMintsToAccumulator (coin : PublicCoin) (nHeightMintAdded nHeight : Nat)
    (isWitness : Bool) (accumulator : Accumulator) :
    Except WitnessFailure (Accumulator × Nat) :=
  if coin.denomination ∈ ctx.vMintDenominationsInBlock nHeight then do
    let listPubcoins ← ctx.getPubcoinFromBlock nHeight
    let added := addedCoins coin nHeightMintAdded nHeight isWitness listPubcoins
    return (added.foldl (Accumulator.increment ctx.lib) accumulator, added.length)
  else .ok (accumulator, 0)

/-- `GetAccumulatorValue`: the value at a height, and the height it is for. Nothing comes
back above the chain. -/
def getAccumulatorValue (nHeight : Int) (denom : CoinDenomination) :
    Except WitnessFailure (Option (Int × CBigNum)) := do
  if nHeight > ctx.height then return none
  let some pindex := ctx.pindexAt nHeight | throw .nullIndex
  if nHeight > ctx.params.nBlockZerocoinV2 + 20 then
    return (getAccumulatorValueFromDB ctx.store pindex.nAccumulatorCheckpoint denom).map
      (Prod.mk nHeight)
  let (nHeightCheckpoint, checkpoint) := getClosestCheckpoint ctx.toAccumulatorContext nHeight
  if nHeightCheckpoint < 0 then
    return some (ctx.params.nZerocoinStartHeight + 10, ctx.lib.accumulatorBase false)
  let some entry := checkpoint.find? fun entry => entry.1 == denom
    | throw (.exception "out_of_range")
  return some (nHeightCheckpoint, entry.2)

/-- `ComputeAccumulatedCoins`: the mints of a denomination from the start of zerocoins up to
a height. The loop reads the block index at its end as well. -/
def computeAccumulatedCoins (nHeightEnd : Int) (denom : CoinDenomination) :
    Except WitnessFailure Nat :=
  let start := ctx.params.nZerocoinStartHeight
  if start < 0 ∨ ctx.height < start ∨ ctx.height < nHeightEnd then .error .nullIndex
  else .ok ((List.range' start.toNat (nHeightEnd - start).toNat).map fun height =>
    (ctx.vMintDenominationsInBlock height).count denom).sum

/-- `nHeightStop` in the absence of a checkpoint: at least two checkpoints deep. -/
def deepHeight : Int := ctx.height - ctx.height.tmod 10 - 20

end WitnessContext

/-! ## The witness in one go -/

/-- What the loop over the chain changes: the accumulator, that of the witness, and the
number of mints in the witness. -/
structure WitnessScan where
  accumulator : Accumulator
  witnessAccumulator : Accumulator
  nMintsAdded : Nat
  deriving DecidableEq, Repr

namespace WitnessContext

variable (ctx : WitnessContext)

/-- The end of the loop, where the accumulator gets the value of the checkpoint ten blocks
above. In the invalid range the round is repeated without a change. -/
def readStopValue (coin : PublicCoin) (height : Nat) (scan : WitnessScan) :
    Except WitnessFailure WitnessScan := do
  if invalidCheckpointRange ctx.params height then throw .endless
  let some pindexSpend := ctx.pindexAt (height + 10) | throw .nullIndex
  match getAccumulatorValueFromDB ctx.store pindexSpend.nAccumulatorCheckpoint
      coin.denomination with
  | none => throw (.exception "failed to find checksum in database for accumulator")
  | some bnAccValue =>
      -- a pointer is thrown, which the handlers do not catch
      if bnAccValue = 0 then
        throw (.exception "failed to find checksum in database for accumulator")
      return { scan with accumulator := { scan.accumulator with value := bnAccValue } }

/-- The loop of `calculateAccumulatedBlocksFor`. The heights of the range that was
accumulated twice are written out in it. -/
def accumulateUntil (coin : PublicCoin) (nHeightMintAdded : Nat) (nHeightStop : Int)
    (fDoubleCounted : Bool) (height : Nat) (scan : WitnessScan) :
    Except WitnessFailure WitnessScan :=
  if height < ctx.chainActive.length then
    if nHeightStop ≤ height then ctx.readStopValue coin height scan
    else
      match ctx.addBlockMintsToAccumulator coin nHeightMintAdded height true
          scan.witnessAccumulator with
      | .error failure => .error failure
      | .ok (witnessAccumulator, nMintsAdded) =>
          let scan := { scan with
            witnessAccumulator, nMintsAdded := scan.nMintsAdded + nMintsAdded }
          if height = 1050010 ∧ fDoubleCounted = false then
            accumulateUntil coin nHeightMintAdded nHeightStop true 1050000 scan
          else accumulateUntil coin nHeightMintAdded nHeightStop fDoubleCounted (height + 1) scan
  else .ok scan
termination_by ((!fDoubleCounted).toNat, ctx.chainActive.length - height)
decreasing_by
  · rename_i again
    rw [again.2]
    exact Prod.Lex.left _ _ (by decide)
  · exact Prod.Lex.right _ (by omega)

/-- The accumulator that the witness starts from. Only on the regression test network a
value of zero stands for a fresh accumulator. -/
def startValue (bnAccValue : CBigNum) : CBigNum :=
  if bnAccValue = 0 ∧ ctx.params.networkID = .regtest then ctx.lib.accumulatorBase false
  else bnAccValue

/-- The stop height, for a checkpoint or without one. -/
def stopHeight : Option Nat → Int
  | some nHeight => nHeight - 10
  | none => ctx.deepHeight

/-- `GenerateAccumulatorWitness` up to the end of the loop. -/
def scanFor (coin : PublicCoin) (accumulator : Accumulator) (pindexCheckpoint : Option Nat) :
    Except WitnessFailure WitnessScan := do
  if !ctx.lockMethod then throw (.error "could not get lock on cs_main")
  let nHeightMintAdded ← ctx.searchMintHeightOf coin.value
  let nHeightCheckpoint : Nat := nHeightMintAdded + (10 - nHeightMintAdded % 10)
  let (nHeightCheckpoint, accumulator) ←
    match ← ctx.getAccumulatorValue nHeightCheckpoint coin.denomination with
    | none => pure ((nHeightCheckpoint : Int), accumulator)
    | some (nHeightCheckpoint, bnAccValue) =>
        pure (nHeightCheckpoint, { accumulator with value := ctx.startValue bnAccValue })
  let scan : WitnessScan :=
    { accumulator, witnessAccumulator := accumulator, nMintsAdded := 0 }
  if nHeightCheckpoint < 10 then return scan
  ctx.accumulateUntil coin nHeightMintAdded (ctx.stopHeight pindexCheckpoint) false
    (nHeightCheckpoint - 10).toNat scan

/-- `GenerateAccumulatorWitness`: the accumulator, the witness and the number of mints. The
loop counts the mints it adds in a variable of its own, so the count that is compared
last is zero. -/
def generateAccumulatorWitness (coin : PublicCoin) (accumulator : Accumulator)
    (witness : AccumulatorWitness) (pindexCheckpoint : Option Nat) :
    Except WitnessFailure (Accumulator × AccumulatorWitness × Int) := do
  let scan ← ctx.scanFor coin accumulator pindexCheckpoint
  if (scan.nMintsAdded : Int) < ctx.params.nRequiredAccumulation then
    throw (.exception "Less than the required mints added, unable to create spend")
  let witness := witness.resetValue scan.witnessAccumulator coin
  match witness.verifyWitness ctx.lib scan.accumulator coin with
  | .error text => throw (.exception text)
  | .ok false => throw (.error "failed to verify witness")
  | .ok true =>
      let nMintsAdded : Int := 0
      if nMintsAdded < ctx.params.nRequiredAccumulation then
        throw (.error "Less than the required mints added, unable to create spend")
      let nHeightMintAdded ← ctx.searchMintHeightOf coin.value
      let accumulated ← ctx.computeAccumulatedCoins
        (nHeightMintAdded - nHeightMintAdded % 10 : Nat) coin.denomination
      return (scan.accumulator, witness, nMintsAdded + accumulated)

/-- **No witness is handed out** where at least one mint is required, whatever the loop
adds. -/
theorem generateAccumulatorWitness_ne_ok {ctx : WitnessContext}
    (required : 0 < ctx.params.nRequiredAccumulation) (coin : PublicCoin)
    (accumulator : Accumulator) (witness : AccumulatorWitness) (pindexCheckpoint : Option Nat)
    (result : Accumulator × AccumulatorWitness × Int) :
    ctx.generateAccumulatorWitness coin accumulator witness pindexCheckpoint ≠ .ok result := by
  intro made
  obtain ⟨scan, -, rest⟩ := Foundation.Checks.bind_eq_ok.mp made
  split at rest
  · cases rest
  · dsimp only at rest
    split at rest
    · cases rest
    · cases rest
    · rw [if_pos required] at rest
      cases rest

end WitnessContext

/-! ## The coins of a witness -/

/-- What the proofs need of the number theory: the order of the coins does not matter, zero
stays zero, and no accumulator of coins is zero. -/
structure Libzerocoin.Accumulating (lib : Libzerocoin) : Prop where
  comm : ∀ value first second,
    lib.powMod (lib.powMod value first (lib.accumulatorModulus false)) second
        (lib.accumulatorModulus false) =
      lib.powMod (lib.powMod value second (lib.accumulatorModulus false)) first
        (lib.accumulatorModulus false)
  zero : ∀ coin, 0 < coin → lib.powMod 0 coin (lib.accumulatorModulus false) = 0
  nonzero : ∀ coins : List CBigNum, (∀ coin ∈ coins, 0 < coin) →
    foldCoins lib (lib.accumulatorBase false) coins ≠ 0
  minimum : 0 ≤ lib.minCoinValue

/-- The values of the coins of a denomination. -/
def coinsOf (denom : CoinDenomination) (coins : List PublicCoin) : List CBigNum :=
  (coins.filter fun coin => decide (coin.denomination = denom)).map PublicCoin.value

namespace WitnessContext

variable (ctx : WitnessContext)

/-- The coins of a denomination that the blocks from a height on and below another mint. -/
def coinsBetween (denom : CoinDenomination) (start stop : Nat) : List CBigNum :=
  coinsOf denom (ctx.mintsBetween true start stop)

/-- The coins that the blocks from a height on and below another add to a witness. -/
def addedBetween (coin : PublicCoin) (nHeightMintAdded start stop : Nat) : List CBigNum :=
  (List.range' start (stop - start)).flatMap fun height =>
    addedCoins coin nHeightMintAdded height true (ctx.mintsAt true height)

/-- What the accumulator of a denomination holds after the mints from a start up to a
height. -/
def valueOf (denom : CoinDenomination) (start stop : Nat) : CBigNum :=
  foldCoins ctx.lib (ctx.lib.accumulatorBase false) (ctx.coinsBetween denom start stop)

/-- A chain whose checkpoints fold exactly the mints from a start up to eleven blocks below
them. A checkpoint of zero is that of fresh accumulators, which have no coins and no values
in the database. -/
structure FoldsMints (start : Nat) : Prop where
  /-- The blocks of the chain are on disk, and their mints can be listed. -/
  readable : ∀ height, height < ctx.chainActive.length →
    ctx.getPubcoinFromBlock height = .ok (ctx.mintsAt true height)
  /-- The block indexes list the denominations of the mints. -/
  listed : ∀ height, ∀ coin ∈ ctx.mintsAt true height,
    coin.denomination ∈ ctx.vMintDenominationsInBlock height
  /-- The mints passed `CheckZerocoinMint`. -/
  checked : ∀ height, ∀ coin ∈ ctx.mintsAt true height,
    coin.denomination ∈ zerocoinDenomList ∧ coin.validate ctx.lib = true
  folded : ∀ (height : Nat) (entry : ChainEntry),
    ctx.params.nBlockZerocoinV2 + 20 < (height : Int) → height % 10 = 0 →
    ctx.chainActive[height]? = some entry → ∀ denom ∈ zerocoinDenomList,
      getAccumulatorValueFromDB ctx.store entry.nAccumulatorCheckpoint denom =
          some (if entry.nAccumulatorCheckpoint = 0 then 0
            else ctx.valueOf denom start (height - 10)) ∧
        (entry.nAccumulatorCheckpoint = 0 → ctx.coinsBetween denom start (height - 10) = [])
  /-- The second version starts after the invalid checkpoints. -/
  ranges : ∀ height : Int, ctx.params.nBlockZerocoinV2 + 20 < height →
    invalidCheckpointRange ctx.params height = false

variable {ctx} {coin : PublicCoin} {start stop height nHeightMintAdded : Nat}

/-- No coins are added in an empty range. -/
theorem addedBetween_of_le (done : stop ≤ start) :
    ctx.addedBetween coin nHeightMintAdded start stop = [] := by
  rw [addedBetween, Nat.sub_eq_zero_of_le done]
  rfl

/-- The coins of the first height, and those after it. -/
theorem addedBetween_step (more : start < stop) :
    ctx.addedBetween coin nHeightMintAdded start stop =
      addedCoins coin nHeightMintAdded start true (ctx.mintsAt true start) ++
        ctx.addedBetween coin nHeightMintAdded (start + 1) stop := by
  have count : stop - start = stop - (start + 1) + 1 := by omega
  rw [addedBetween, count, List.range'_succ, List.flatMap_cons]
  rfl

/-- The coins of two ranges that meet. -/
theorem coinsBetween_append {denom : CoinDenomination} {middle : Nat} (first : start ≤ middle)
    (second : middle ≤ stop) :
    ctx.coinsBetween denom start middle ++ ctx.coinsBetween denom middle stop =
      ctx.coinsBetween denom start stop := by
  unfold coinsBetween coinsOf
  rw [← List.map_append, ← List.filter_append, AccumulatorContext.mintsBetween_append first second]

/-- The coins of the first height of a range, and those after it. -/
theorem coinsBetween_step {denom : CoinDenomination} (more : start < stop) :
    ctx.coinsBetween denom start stop =
      coinsOf denom (ctx.mintsAt true start) ++ ctx.coinsBetween denom (start + 1) stop := by
  rw [← coinsBetween_append (Nat.le_succ start) more]
  congr 1
  simp [coinsBetween, AccumulatorContext.mintsBetween]

end WitnessContext

section

variable {lib : Libzerocoin}

/-- Coins are accumulated one after the other. -/
theorem foldCoins_append (value : CBigNum) (first second : List CBigNum) :
    foldCoins lib value (first ++ second) = foldCoins lib (foldCoins lib value first) second :=
  List.foldl_append

/-- Coins in another order give the same value. -/
theorem foldCoins_perm (number : lib.Accumulating) {first second : List CBigNum}
    (same : first.Perm second) (value : CBigNum) :
    foldCoins lib value first = foldCoins lib value second := by
  have comm : RightCommutative fun value coin =>
      lib.powMod value coin (lib.accumulatorModulus false) := ⟨number.comm⟩
  exact same.foldl_eq value

/-- Zero stays zero, whatever is accumulated. -/
theorem foldCoins_zero (number : lib.Accumulating) {coins : List CBigNum}
    (positive : ∀ coin ∈ coins, 0 < coin) : foldCoins lib 0 coins = 0 := by
  induction coins with
  | nil => rfl
  | cons coin rest ih =>
      have first := number.zero coin (positive coin List.mem_cons_self)
      rw [foldCoins, List.foldl_cons, first]
      exact ih fun other member => positive other (List.mem_cons_of_mem coin member)

variable (lib) in
/-- An accumulator of the second version after some coins. -/
def Accumulator.addCoins (accumulator : Accumulator) (coins : List CBigNum) : Accumulator :=
  { accumulator with value := foldCoins lib accumulator.value coins }

variable (lib) in
/-- The scan after some coins went into the witness. -/
def WitnessScan.add (scan : WitnessScan) (coins : List CBigNum) : WitnessScan :=
  { scan with
    witnessAccumulator := scan.witnessAccumulator.addCoins lib coins
    nMintsAdded := scan.nMintsAdded + coins.length }

/-- A scan adds coins one after the other. -/
theorem WitnessScan.add_add (scan : WitnessScan) (first second : List CBigNum) :
    (scan.add lib first).add lib second = scan.add lib (first ++ second) := by
  simp [add, Accumulator.addCoins, foldCoins_append, Nat.add_assoc]

/-- Adding coins changes nothing but the value. -/
theorem foldl_increment {accumulator : Accumulator} (second : accumulator.useModulusV1 = false)
    (coins : List CBigNum) :
    coins.foldl (Accumulator.increment lib) accumulator = accumulator.addCoins lib coins := by
  induction coins generalizing accumulator with
  | nil => rfl
  | cons coin rest ih =>
      have next : (accumulator.increment lib coin).useModulusV1 = false := second
      rw [List.foldl_cons, ih next]
      simp [Accumulator.increment, Accumulator.addCoins, foldCoins, second]

/-- A valid coin is positive. -/
theorem pos_of_validate (number : lib.Accumulating) {coin : PublicCoin}
    (valid : coin.validate lib = true) : 0 < coin.value := by
  have minimum := number.minimum
  simp only [PublicCoin.validate, Bool.and_eq_true, Bool.not_eq_true', decide_eq_false_iff_not]
    at valid
  exact lt_of_le_of_lt minimum (not_le.mp valid.1.1)

end

/-! ## The loop -/

namespace WitnessContext

variable {ctx : WitnessContext} {coin : PublicCoin} {start stop height nHeightMintAdded : Nat}
  {scan : WitnessScan}

/-- A round of the loop on a chain that can be read. -/
theorem FoldsMints.addBlockMintsToAccumulator_eq (chain : ctx.FoldsMints start)
    (inChain : height < ctx.chainActive.length) {accumulator : Accumulator}
    (second : accumulator.useModulusV1 = false) {added : List CBigNum}
    (adds : addedCoins coin nHeightMintAdded height true (ctx.mintsAt true height) = added) :
    ctx.addBlockMintsToAccumulator coin nHeightMintAdded height true accumulator =
      .ok (accumulator.addCoins ctx.lib added, added.length) := by
  unfold addBlockMintsToAccumulator
  by_cases lists : coin.denomination ∈ ctx.vMintDenominationsInBlock height
  · rw [if_pos lists, chain.readable height inChain, ← foldl_increment second, ← adds]
    rfl
  · have none : added = [] := by
      rw [← adds, addedCoins, List.map_eq_nil_iff, List.filter_eq_nil_iff]
      intro minted member passes
      simp only [Bool.and_eq_true, decide_eq_true_eq] at passes
      exact lists (passes.1 ▸ chain.listed height minted member)
    rw [if_neg lists, none]
    rfl

/-- **The loop** adds the coins of all blocks below the stop height, unless the range that
was accumulated twice lies among them. -/
theorem FoldsMints.accumulateUntil_eq (chain : ctx.FoldsMints start) {rounds : Nat}
    (inChain : height + rounds < ctx.chainActive.length)
    (single : height + rounds ≤ 1050010 ∨ 1050010 < height)
    (second : scan.witnessAccumulator.useModulusV1 = false) :
    ctx.accumulateUntil coin nHeightMintAdded ((height + rounds : Nat) : Int) false height scan =
      ctx.readStopValue coin (height + rounds)
        (scan.add ctx.lib (ctx.addedBetween coin nHeightMintAdded height (height + rounds))) := by
  induction rounds generalizing height scan with
  | zero =>
      rw [accumulateUntil, if_pos (by omega), if_pos (by omega), addedBetween_of_le (by omega)]
      rfl
  | succ rounds ih =>
      have inside : height < ctx.chainActive.length := by omega
      have below : ¬ ((height + (rounds + 1) : Nat) : Int) ≤ height := by omega
      have once : ¬ (height = 1050010 ∧ false = false) := by omega
      have place : height + (rounds + 1) = height + 1 + rounds := by omega
      rw [accumulateUntil, if_pos inside, if_neg below,
        chain.addBlockMintsToAccumulator_eq inside second rfl, addedBetween_step (by omega),
        ← WitnessScan.add_add]
      dsimp only
      rw [if_neg once, place]
      exact ih (by omega) (by omega) second

end WitnessContext

/-! ## The coin that is left out -/

section

variable {ctx : WitnessContext} {coin : PublicCoin}
  {start middle stop height nHeightMintAdded : Nat}

/-- At other heights than that of the mint all coins are added. -/
theorem addedCoins_of_ne (other : height ≠ nHeightMintAdded) (listPubcoins : List PublicCoin) :
    WitnessContext.addedCoins coin nHeightMintAdded height true listPubcoins =
      coinsOf coin.denomination listPubcoins := by
  simp [WitnessContext.addedCoins, coinsOf, other]

/-- In its own block every mint of the coin is left out. -/
theorem coinsOf_perm (coin : PublicCoin) (nHeightMintAdded : Nat)
    (listPubcoins : List PublicCoin) :
    (coinsOf coin.denomination listPubcoins).Perm
      (WitnessContext.addedCoins coin nHeightMintAdded nHeightMintAdded true listPubcoins ++
        List.replicate (listPubcoins.count coin) coin.value) := by
  induction listPubcoins with
  | nil => exact List.Perm.refl _
  | cons minted rest ih =>
      by_cases same : minted = coin
      · subst same
        have left : WitnessContext.addedCoins minted nHeightMintAdded nHeightMintAdded true
            (minted :: rest) = WitnessContext.addedCoins minted nHeightMintAdded nHeightMintAdded
              true rest := by
          simp [WitnessContext.addedCoins]
        have first : coinsOf minted.denomination (minted :: rest) =
            minted.value :: coinsOf minted.denomination rest := by
          simp [coinsOf]
        rw [left, first, List.count_cons_self, List.replicate_succ]
        exact (ih.cons _).trans List.perm_middle.symm
      · rw [List.count_cons_of_ne same]
        by_cases shared : minted.denomination = coin.denomination
        · have different : minted.value ≠ coin.value := by
            intro equal
            exact same (congr (congrArg PublicCoin.mk equal) shared)
          have first : WitnessContext.addedCoins coin nHeightMintAdded nHeightMintAdded true
              (minted :: rest) = minted.value :: WitnessContext.addedCoins coin nHeightMintAdded
                nHeightMintAdded true rest := by
            simp [WitnessContext.addedCoins, shared, different]
          have second : coinsOf coin.denomination (minted :: rest) =
              minted.value :: coinsOf coin.denomination rest := by
            simp [coinsOf, shared]
          rw [first, second]
          exact ih.cons _
        · have first : WitnessContext.addedCoins coin nHeightMintAdded nHeightMintAdded true
              (minted :: rest) = WitnessContext.addedCoins coin nHeightMintAdded
                nHeightMintAdded true rest := by
            simp [WitnessContext.addedCoins, shared]
          have second : coinsOf coin.denomination (minted :: rest) =
              coinsOf coin.denomination rest := by
            simp [coinsOf, shared]
          rw [first, second]
          exact ih

/-- Blocks other than that of the coin add all their coins. -/
theorem addedBetween_of_outside (outside : nHeightMintAdded < start ∨ stop ≤ nHeightMintAdded) :
    ctx.addedBetween coin nHeightMintAdded start stop =
      ctx.coinsBetween coin.denomination start stop := by
  unfold WitnessContext.addedBetween WitnessContext.coinsBetween AccumulatorContext.mintsBetween
    coinsOf
  rw [List.filter_flatMap, List.map_flatMap]
  apply List.flatMap_congr
  intro height member
  have range := List.mem_range'_1.mp member
  exact addedCoins_of_ne (by omega) _

/-- The added coins of two ranges that meet. -/
theorem addedBetween_append (first : start ≤ middle) (second : middle ≤ stop) :
    ctx.addedBetween coin nHeightMintAdded start middle ++
        ctx.addedBetween coin nHeightMintAdded middle stop =
      ctx.addedBetween coin nHeightMintAdded start stop := by
  have whole : stop - start = middle - start + (stop - middle) := by omega
  have meet : start + (middle - start) = middle := by omega
  rw [WitnessContext.addedBetween, WitnessContext.addedBetween, WitnessContext.addedBetween, whole,
    ← List.range'_append_1, List.flatMap_append, meet]

/-- **The blocks around a coin** mint what goes into its witness, and the coin as often as
it was minted in its block. -/
theorem coinsBetween_perm (above : start ≤ nHeightMintAdded) (below : nHeightMintAdded < stop) :
    (ctx.coinsBetween coin.denomination start stop).Perm
      (ctx.addedBetween coin nHeightMintAdded start stop ++
        List.replicate ((ctx.mintsAt true nHeightMintAdded).count coin) coin.value) := by
  rw [← WitnessContext.coinsBetween_append above below.le, ← addedBetween_append above below.le,
    addedBetween_of_outside (Or.inr le_rfl), WitnessContext.coinsBetween_step below,
    WitnessContext.addedBetween_step below, addedBetween_of_outside (Or.inl (Nat.lt_succ_self _)),
    List.append_assoc, List.append_assoc]
  apply List.Perm.append_left
  refine ((coinsOf_perm coin nHeightMintAdded _).append_right _).trans ?_
  rw [List.append_assoc]
  exact List.Perm.append_left _ List.perm_append_comm

end

/-! ## The witness and the checkpoint -/

/-- The first of the ten blocks that the block at a height belongs to, `nAccStartHeight`. -/
def accStartHeight (nHeight : Nat) : Nat := nHeight - nHeight % 10

namespace WitnessContext

variable (ctx : WitnessContext)

/-- The coin was minted at a height of the chain, and the database says so. -/
structure MintedAt (coin : PublicCoin) (nHeight : Nat) : Prop where
  found : ctx.searchMintHeightOf coin.value = .ok nHeight
  inChain : nHeight < ctx.chainActive.length
  minted : coin ∈ ctx.mintsAt true nHeight

/-- The coins in the witness of a coin: those that its first accumulator stands for, and those
that the loop adds. -/
def witnessCoins (coin : PublicCoin) (nHeightMintAdded start stop : Nat) : List CBigNum :=
  ctx.coinsBetween coin.denomination start (accStartHeight nHeightMintAdded) ++
    ctx.addedBetween coin nHeightMintAdded (accStartHeight nHeightMintAdded) stop

/-- **The witness and the checkpoint agree.** The loop ends, the coins in the witness and the
coin itself are those in the accumulator of the stop height, and the witness verifies. -/
def Agrees (coin : PublicCoin) (nHeightMintAdded start : Nat) (pindexCheckpoint : Option Nat) :
    Prop :=
  let fresh := Accumulator.fresh ctx.lib false coin.denomination
  let stop := (ctx.stopHeight pindexCheckpoint).toNat
  let witnessCoins := ctx.witnessCoins coin nHeightMintAdded start stop
  ∃ scan, ctx.scanFor coin fresh pindexCheckpoint = .ok scan ∧
    scan.witnessAccumulator.value =
      foldCoins ctx.lib (ctx.lib.accumulatorBase false) witnessCoins ∧
    scan.accumulator.value = ctx.valueOf coin.denomination start stop ∧
    (coin.value :: witnessCoins).Perm (ctx.coinsBetween coin.denomination start stop) ∧
    ((AccumulatorWitness.mk fresh coin).resetValue scan.witnessAccumulator coin).verifyWitness
      ctx.lib scan.accumulator coin = .ok true

variable {ctx} {coin : PublicCoin} {nHeightMintAdded start stop : Nat}
  {pindexCheckpoint : Option Nat}

/-- The start of the accumulation is not later than the mint. -/
theorem accStartHeight_le (nHeight : Nat) : accStartHeight nHeight ≤ nHeight := Nat.sub_le _ _

/-- The value that the database gives for the checkpoint after the coin's ten blocks. -/
theorem FoldsMints.getAccumulatorValue_eq (chain : ctx.FoldsMints start)
    {denom : CoinDenomination} (proper : denom ∈ zerocoinDenomList) {height : Nat}
    (late : ctx.params.nBlockZerocoinV2 + 20 < (height : Int)) (tenth : height % 10 = 0)
    {entry : ChainEntry} (here : ctx.chainActive[height]? = some entry) :
    ctx.getAccumulatorValue height denom = .ok (some (height,
      if entry.nAccumulatorCheckpoint = 0 then 0 else ctx.valueOf denom start (height - 10))) := by
  have bound := (List.getElem?_eq_some_iff.mp here).1
  have inside : ¬ (height : Int) > ctx.height := by
    unfold WitnessContext.height
    omega
  have index : ctx.pindexAt height = some entry := by
    rw [pindexAt, if_neg (by omega), Int.toNat_natCast, here]
  rw [getAccumulatorValue, if_neg inside, index]
  dsimp only
  rw [if_pos late, (chain.folded height entry late tenth here denom proper).1]
  rfl

/-- The accumulator that the witness starts from, by the checkpoint that it is read from. -/
def firstAccumulator (ctx : WitnessContext) (denom : CoinDenomination) (start first : Nat)
    (nCheckpoint : Uint256) : Accumulator :=
  { Accumulator.fresh ctx.lib false denom with
    value := ctx.startValue (if nCheckpoint = 0 then 0 else ctx.valueOf denom start first) }

/-- The scan runs from the coin's ten blocks up to the stop height. -/
theorem FoldsMints.scanFor_eq (chain : ctx.FoldsMints start) (locked : ctx.lockMethod = true)
    (minted : ctx.MintedAt coin nHeightMintAdded)
    (late : ctx.params.nBlockZerocoinV2 + 20 < (accStartHeight nHeightMintAdded + 10 : Nat))
    {entry : ChainEntry}
    (here : ctx.chainActive[accStartHeight nHeightMintAdded + 10]? = some entry)
    (stops : ctx.stopHeight pindexCheckpoint = stop)
    (above : accStartHeight nHeightMintAdded ≤ stop) (inChain : stop < ctx.chainActive.length)
    (single : stop ≤ 1050010 ∨ 1050010 < accStartHeight nHeightMintAdded) {first : Accumulator}
    (starts : ctx.firstAccumulator coin.denomination start (accStartHeight nHeightMintAdded)
      entry.nAccumulatorCheckpoint = first) :
    ctx.scanFor coin (Accumulator.fresh ctx.lib false coin.denomination) pindexCheckpoint =
      ctx.readStopValue coin stop ((WitnessScan.mk first first 0).add ctx.lib
        (ctx.addedBetween coin nHeightMintAdded (accStartHeight nHeightMintAdded) stop)) := by
  subst starts
  have next : nHeightMintAdded + (10 - nHeightMintAdded % 10) =
      accStartHeight nHeightMintAdded + 10 := by
    unfold accStartHeight
    omega
  have tenth : (accStartHeight nHeightMintAdded + 10) % 10 = 0 := by
    unfold accStartHeight
    omega
  have proper := (chain.checked _ _ minted.minted).1
  have far : ¬ ((accStartHeight nHeightMintAdded + 10 : Nat) : Int) < 10 := by omega
  have back : (((accStartHeight nHeightMintAdded + 10 : Nat) : Int) - 10).toNat =
      accStartHeight nHeightMintAdded := by omega
  obtain ⟨rounds, rfl⟩ : ∃ rounds, stop = accStartHeight nHeightMintAdded + rounds :=
    ⟨stop - accStartHeight nHeightMintAdded, by omega⟩
  unfold scanFor
  rw [locked, minted.found]
  simp only [Bool.not_true, Bool.false_eq_true, if_false, bind, Except.bind, pure, Except.pure,
    next, chain.getAccumulatorValue_eq proper late tenth here, far, back, stops]
  exact chain.accumulateUntil_eq inChain single rfl

/-- The coins of the chain are positive. -/
theorem FoldsMints.pos_of_mem_coinsBetween (chain : ctx.FoldsMints start)
    (number : ctx.lib.Accumulating) {denom : CoinDenomination} {first : Nat} :
    ∀ value ∈ ctx.coinsBetween denom first stop, 0 < value := by
  intro value member
  obtain ⟨minted, inside, rfl⟩ := List.mem_map.mp member
  obtain ⟨height, -, there⟩ := List.mem_flatMap.mp (List.mem_filter.mp inside).1
  exact pos_of_validate number (chain.checked height minted there).2

/-- The coins that are added are positive. -/
theorem FoldsMints.pos_of_mem_addedBetween (chain : ctx.FoldsMints start)
    (number : ctx.lib.Accumulating) {first : Nat} :
    ∀ value ∈ ctx.addedBetween coin nHeightMintAdded first stop, 0 < value := by
  intro value member
  obtain ⟨height, -, there⟩ := List.mem_flatMap.mp member
  obtain ⟨minted, inside, rfl⟩ := List.mem_map.mp there
  exact pos_of_validate number (chain.checked height minted (List.mem_filter.mp inside).1).2

/-- A longer range has no fewer coins. -/
theorem length_coinsBetween_le {denom : CoinDenomination} {first second : Nat}
    (le : first ≤ second) :
    (ctx.coinsBetween denom start first).length ≤ (ctx.coinsBetween denom start second).length := by
  by_cases early : first ≤ start
  · have none : ctx.coinsBetween denom start first = [] := by
      rw [coinsBetween, AccumulatorContext.mintsBetween_of_le early]
      rfl
    rw [none]
    exact Nat.zero_le _
  · rw [← coinsBetween_append (by omega) le, List.length_append]
    exact Nat.le_add_right _ _

/-- A coin above the stop height is not in the accumulator there. -/
theorem not_perm_of_le (early : stop ≤ accStartHeight nHeightMintAdded) :
    ¬ (coin.value :: ctx.witnessCoins coin nHeightMintAdded start stop).Perm
      (ctx.coinsBetween coin.denomination start stop) := by
  intro same
  have lengths := same.length_eq
  have shorter : (ctx.coinsBetween coin.denomination start stop).length ≤
      (ctx.coinsBetween coin.denomination start (accStartHeight nHeightMintAdded)).length :=
    length_coinsBetween_le early
  rw [List.length_cons, witnessCoins, List.length_append] at lengths
  omega

/-- **The coins agree** exactly if the coin was minted once in its block. -/
theorem perm_iff_count (begins : start ≤ accStartHeight nHeightMintAdded)
    (below : nHeightMintAdded < stop) :
    (coin.value :: ctx.witnessCoins coin nHeightMintAdded start stop).Perm
        (ctx.coinsBetween coin.denomination start stop) ↔
      (ctx.mintsAt true nHeightMintAdded).count coin = 1 := by
  have inside := accStartHeight_le nHeightMintAdded
  have minted : (ctx.coinsBetween coin.denomination start stop).Perm
      (ctx.witnessCoins coin nHeightMintAdded start stop ++
        List.replicate ((ctx.mintsAt true nHeightMintAdded).count coin) coin.value) := by
    rw [← coinsBetween_append begins (inside.trans below.le), witnessCoins, List.append_assoc]
    exact (coinsBetween_perm inside below).append_left _
  constructor
  · intro same
    have lengths := (same.trans minted).length_eq
    rw [List.length_cons, List.length_append, List.length_replicate] at lengths
    omega
  · intro once
    rw [once] at minted
    exact (List.perm_append_singleton _ _).symm.trans minted.symm

/-- A witness verifies if its value is not zero and gives the accumulator with one more
coin. -/
theorem verifyWitness_eq_ok_true_iff {lib : Libzerocoin} (valid : coin.validate lib = true)
    {witnessAccumulator accumulator : Accumulator} :
    ((AccumulatorWitness.mk (Accumulator.fresh lib false coin.denomination) coin).resetValue
        witnessAccumulator coin).verifyWitness lib accumulator coin = .ok true ↔
      witnessAccumulator.value ≠ 0 ∧
        foldCoins lib witnessAccumulator.value [coin.value] = accumulator.value := by
  by_cases zero : witnessAccumulator.value = 0
  · simp [AccumulatorWitness.verifyWitness, AccumulatorWitness.resetValue, Accumulator.accumulate,
      zero, bind, Except.bind]
  · simp [AccumulatorWitness.verifyWitness, AccumulatorWitness.resetValue, Accumulator.accumulate,
      Accumulator.fresh, Accumulator.increment, foldCoins, zero, valid, bind, Except.bind, pure,
      Except.pure]

/-- Without a checkpoint the stop height is divisible by ten. -/
theorem deepHeight_le (nonempty : 0 < ctx.chainActive.length)
    (early : ¬ (nHeightMintAdded : Int) < ctx.deepHeight) :
    ctx.deepHeight.toNat ≤ accStartHeight nHeightMintAdded := by
  unfold deepHeight WitnessContext.height accStartHeight at *
  rw [Int.tmod_eq_emod_of_nonneg (by omega)] at *
  omega

/-- The value at the stop height, where the checkpoint ten blocks above is in the chain. -/
theorem FoldsMints.readStopValue_eq (chain : ctx.FoldsMints start)
    (number : ctx.lib.Accumulating) (proper : coin.denomination ∈ zerocoinDenomList)
    (late : ctx.params.nBlockZerocoinV2 + 20 < (stop : Int)) (tenth : stop % 10 = 0)
    (inChain : stop + 10 < ctx.chainActive.length)
    (mints : ctx.coinsBetween coin.denomination start stop ≠ []) (scan : WitnessScan) :
    ctx.readStopValue coin stop scan = .ok { scan with
      accumulator := { scan.accumulator with
        value := ctx.valueOf coin.denomination start stop } } := by
  have found := List.getElem?_eq_getElem inChain
  obtain ⟨value, empty⟩ := chain.folded (stop + 10) _ (by omega) (by omega) found _ proper
  have nonzero : ctx.chainActive[stop + 10].nAccumulatorCheckpoint ≠ 0 := by
    intro zero
    exact mints (empty zero)
  have index : ctx.pindexAt (stop + 10) = some ctx.chainActive[stop + 10] := by
    have place : ((stop : Int) + 10).toNat = stop + 10 := by omega
    rw [pindexAt, if_neg (by omega), place, found]
  have positive : ctx.valueOf coin.denomination start stop ≠ 0 :=
    number.nonzero _ (chain.pos_of_mem_coinsBetween number)
  unfold readStopValue
  rw [chain.ranges stop late, index]
  simp only [value, if_neg nonzero, Nat.add_sub_cancel, if_neg positive]
  rfl

/-- The coin itself is in the range. -/
theorem coinsBetween_ne_nil (begins : start ≤ accStartHeight nHeightMintAdded)
    (minted : coin ∈ ctx.mintsAt true nHeightMintAdded) (below : nHeightMintAdded < stop) :
    ctx.coinsBetween coin.denomination start stop ≠ [] := by
  have inside := accStartHeight_le nHeightMintAdded
  apply List.ne_nil_of_mem
  refine List.mem_map.mpr ⟨coin, List.mem_filter.mpr ⟨?_, decide_eq_true rfl⟩, rfl⟩
  refine List.mem_flatMap.mpr ⟨nHeightMintAdded, List.mem_range'_1.mpr ?_, minted⟩
  omega

/-- The stop height and the checkpoint above it, where they are above the coin's block. -/
theorem stopHeight_of_lt (nonempty : 0 < ctx.chainActive.length)
    (deep : ∀ nHeight ∈ pindexCheckpoint, nHeight % 10 = 0 ∧
      (nHeightMintAdded : Int) < nHeight - 10 ∧ nHeight < ctx.chainActive.length)
    (below : (nHeightMintAdded : Int) < ctx.stopHeight pindexCheckpoint) :
    ∃ stop : Nat, ctx.stopHeight pindexCheckpoint = stop ∧ stop % 10 = 0 ∧
      stop + 10 < ctx.chainActive.length := by
  refine ⟨(ctx.stopHeight pindexCheckpoint).toNat, by omega, ?_⟩
  cases pindexCheckpoint with
  | none =>
      unfold stopHeight deepHeight WitnessContext.height at *
      dsimp only at *
      rw [Int.tmod_eq_emod_of_nonneg (by omega)] at *
      omega
  | some nHeight =>
      obtain ⟨tenth, -, inChain⟩ := deep nHeight rfl
      unfold stopHeight at *
      dsimp only at *
      omega

/-- The accumulator of the chain is never zero. -/
theorem FoldsMints.valueOf_ne_zero (chain : ctx.FoldsMints start) (number : ctx.lib.Accumulating)
    (denom : CoinDenomination) (stop : Nat) : ctx.valueOf denom start stop ≠ 0 :=
  number.nonzero _ (chain.pos_of_mem_coinsBetween number)

/-- The accumulator that the witness starts from holds the mints before the coin's ten blocks,
if a checkpoint of zero is taken for fresh accumulators. -/
theorem FoldsMints.firstAccumulator_value (chain : ctx.FoldsMints start)
    (number : ctx.lib.Accumulating) {denom : CoinDenomination} {first : Nat}
    (proper : denom ∈ zerocoinDenomList) (tenth : first % 10 = 0)
    (late : ctx.params.nBlockZerocoinV2 + 20 < (first + 10 : Nat)) {entry : ChainEntry}
    (here : ctx.chainActive[first + 10]? = some entry)
    (starts : ctx.params.networkID = .regtest ∨ entry.nAccumulatorCheckpoint ≠ 0) :
    (ctx.firstAccumulator denom start first entry.nAccumulatorCheckpoint).value =
      ctx.valueOf denom start first := by
  unfold firstAccumulator startValue
  dsimp only
  by_cases zero : entry.nAccumulatorCheckpoint = 0
  · have none := (chain.folded _ _ late (by omega) here _ proper).2 zero
    have regtest := starts.resolve_right (not_not.mpr zero)
    rw [if_pos zero, if_pos ⟨rfl, regtest⟩, valueOf, Nat.add_sub_cancel_right] at *
    rw [none]
    rfl
  · rw [if_neg zero, if_neg fun both => chain.valueOf_ne_zero number denom first both.1]

/-- What is left to compare once the scan has ended. -/
theorem agrees_iff_of_scan (stops : ctx.stopHeight pindexCheckpoint = stop) {scan : WitnessScan}
    (scanned : ctx.scanFor coin (Accumulator.fresh ctx.lib false coin.denomination)
      pindexCheckpoint = .ok scan) (valid : coin.validate ctx.lib = true) :
    ctx.Agrees coin nHeightMintAdded start pindexCheckpoint ↔
      scan.witnessAccumulator.value = foldCoins ctx.lib (ctx.lib.accumulatorBase false)
          (ctx.witnessCoins coin nHeightMintAdded start stop) ∧
        scan.accumulator.value = ctx.valueOf coin.denomination start stop ∧
        (coin.value :: ctx.witnessCoins coin nHeightMintAdded start stop).Perm
          (ctx.coinsBetween coin.denomination start stop) ∧
        scan.witnessAccumulator.value ≠ 0 ∧
        foldCoins ctx.lib scan.witnessAccumulator.value [coin.value] = scan.accumulator.value := by
  unfold Agrees
  simp only [scanned, stops, Int.toNat_natCast, verifyWitness_eq_ok_true_iff valid,
    Except.ok.injEq, exists_eq_left']

end WitnessContext

/-- **When the witness and the checkpoint agree.** On a chain whose checkpoints fold the mints
up to eleven blocks below them, the witness of a coin holds exactly the other coins of the
accumulator at the stop height, and verifies, if and only if the coin was minted once in its
block, the stop height is above that block, and the first accumulator is that of a
checkpoint other than zero or the network is the regression test network. -/
theorem witness_agrees_iff (ctx : WitnessContext) (coin : PublicCoin) (nHeightMintAdded start : Nat)
    (pindexCheckpoint : Option Nat) (number : ctx.lib.Accumulating)
    (locked : ctx.lockMethod = true) (chain : ctx.FoldsMints start)
    (minted : ctx.MintedAt coin nHeightMintAdded)
    (begins : start ≤ accStartHeight nHeightMintAdded)
    (late : ctx.params.nBlockZerocoinV2 + 20 < (accStartHeight nHeightMintAdded + 10 : Nat))
    (single : ctx.stopHeight pindexCheckpoint ≤ 1050010 ∨
      1050010 < accStartHeight nHeightMintAdded)
    (deep : ∀ nHeight ∈ pindexCheckpoint, nHeight % 10 = 0 ∧
      (nHeightMintAdded : Int) < nHeight - 10 ∧ nHeight < ctx.chainActive.length) :
    ctx.Agrees coin nHeightMintAdded start pindexCheckpoint ↔
      (ctx.mintsAt true nHeightMintAdded).count coin = 1 ∧
        (nHeightMintAdded : Int) < ctx.stopHeight pindexCheckpoint ∧
        (ctx.params.networkID = .regtest ∨
          ∀ entry, ctx.chainActive[accStartHeight nHeightMintAdded + 10]? = some entry →
            entry.nAccumulatorCheckpoint ≠ 0) := by
  have nonempty := Nat.zero_lt_of_lt minted.inChain
  have inside := WitnessContext.accStartHeight_le nHeightMintAdded
  -- at or below the coin's block the two sides have different numbers of coins
  by_cases below : (nHeightMintAdded : Int) < ctx.stopHeight pindexCheckpoint
  swap
  · refine iff_of_false ?_ fun holds => below holds.2.1
    rintro ⟨scan, -, -, -, same, -⟩
    cases pindexCheckpoint with
    | none => exact WitnessContext.not_perm_of_le (WitnessContext.deepHeight_le nonempty below) same
    | some nHeight => exact below (deep nHeight rfl).2.1
  obtain ⟨stop, stops, tenth, inChain⟩ := WitnessContext.stopHeight_of_lt nonempty deep below
  have first : accStartHeight nHeightMintAdded % 10 = 0 ∧
      accStartHeight nHeightMintAdded + 10 ≤ stop := by
    unfold accStartHeight
    omega
  have proper := (chain.checked _ _ minted.minted).1
  have valid := (chain.checked _ _ minted.minted).2
  have later : nHeightMintAdded < stop := by omega
  have coins : (coin.value :: ctx.witnessCoins coin nHeightMintAdded start stop).Perm
      (ctx.coinsBetween coin.denomination start stop) ↔ _ :=
    WitnessContext.perm_iff_count begins later
  have bound : accStartHeight nHeightMintAdded + 10 < ctx.chainActive.length := by omega
  obtain ⟨entry, here⟩ : ∃ entry,
      ctx.chainActive[accStartHeight nHeightMintAdded + 10]? = some entry :=
    ⟨_, List.getElem?_eq_getElem bound⟩
  -- the scan ends with the accumulator of the stop height
  have scanned := chain.scanFor_eq locked minted late here stops (by omega) (by omega) (by omega)
    rfl
  rw [chain.readStopValue_eq number proper (by omega) tenth inChain
    (WitnessContext.coinsBetween_ne_nil begins minted.minted later)] at scanned
  rw [WitnessContext.agrees_iff_of_scan stops scanned valid, coins]
  dsimp only [WitnessScan.add, Accumulator.addCoins]
  constructor
  · rintro ⟨-, -, once, nonzero, -⟩
    refine ⟨once, below, ?_⟩
    by_contra neither
    push Not at neither
    obtain ⟨other, same, there, zero⟩ := neither
    cases here.symm.trans there
    -- the first value is zero, and stays so
    apply nonzero
    rw [WitnessContext.firstAccumulator, WitnessContext.startValue, if_pos zero,
      if_neg fun both => other both.2]
    exact foldCoins_zero number (chain.pos_of_mem_addedBetween number)
  · rintro ⟨once, -, starts⟩
    have starts := starts.imp_right fun nonzero => nonzero _ here
    have witness : foldCoins ctx.lib (ctx.firstAccumulator coin.denomination start
        (accStartHeight nHeightMintAdded) entry.nAccumulatorCheckpoint).value
            (ctx.addedBetween coin nHeightMintAdded
          (accStartHeight nHeightMintAdded) stop) = foldCoins ctx.lib
            (ctx.lib.accumulatorBase false)
                (ctx.witnessCoins coin nHeightMintAdded start stop) := by
      rw [chain.firstAccumulator_value number proper first.1 late here starts,
        WitnessContext.witnessCoins, foldCoins_append]
      rfl
    have same := coins.mpr once
    have value : foldCoins ctx.lib (foldCoins ctx.lib (ctx.lib.accumulatorBase false)
        (ctx.witnessCoins coin nHeightMintAdded start stop)) [coin.value] =
        ctx.valueOf coin.denomination start stop := by
      rw [← foldCoins_append]
      exact foldCoins_perm number ((List.perm_append_singleton _ _).trans same) _
    refine ⟨witness, rfl, once, ?_, witness ▸ value⟩
    rw [witness]
    refine number.nonzero _ fun other member => ?_
    exact chain.pos_of_mem_coinsBetween number other
      (same.subset (List.mem_cons_of_mem _ member))

/-! ## Chains of the examples -/

/-- Reducing keeps a number coprime to the modulus. -/
theorem isCoprime_emod {value modulus : Int} (coprime : IsCoprime value modulus) :
    IsCoprime (value % modulus) modulus := by
  rw [Int.emod_def, sub_eq_add_neg, ← mul_neg]
  exact coprime.add_mul_left_left _

/-- The stand-ins accumulate as they should. -/
theorem accumulating_plain : Libzerocoin.plain.Accumulating where
  comm value first second := by
    have both : ∀ first second : Int, (value ^ first.toNat % 1517) ^ second.toNat % 1517 =
        value ^ (first.toNat * second.toNat) % 1517 := by
      intro first second
      rw [pow_mul]
      exact (Int.mod_modEq _ _).pow _
    exact (both first second).trans ((Nat.mul_comm _ _ ▸ both second first).symm)
  zero coin positive := by
    have positive : (0 : Int) < coin := positive
    have power : coin.toNat ≠ 0 := by omega
    have zero : (0 : Int) ^ coin.toNat % 1517 = 0 := by
      rw [zero_pow power]
      rfl
    exact zero
  nonzero coins positive := by
    clear positive
    -- powers of the base have no factor in common with the modulus
    have coprime : ∀ value : Int, IsCoprime value 1517 →
        IsCoprime (foldCoins Libzerocoin.plain value coins) 1517 := by
      induction coins with
      | nil => exact fun value coprime => coprime
      | cons coin rest ih => exact fun value coprime => ih _ (isCoprime_emod coprime.pow_left)
    intro zero
    have base : IsCoprime (961 : Int) 1517 := by
      refine ⟨221, -140, ?_⟩
      decide
    have unit := coprime 961 base
    rw [show foldCoins Libzerocoin.plain 961 coins = 0 from zero, isCoprime_zero_left] at unit
    exact absurd (Int.isUnit_iff.mp unit) (by decide)
  minimum := by decide

/-- A chain where every coin was minted at height 42. -/
def witnessContext (chain : AccumulatorContext) : WitnessContext where
  toAccumulatorContext := chain
  store := plainStore
  vMintDenominationsInBlock height := (chain.mintsAt true height).map PublicCoin.denomination
  readCoinMint _ := some 1
  getTransaction _ := some 2
  isTransactionInChain _ := true
  heightOf _ := 42
  lockMethod := true

/-- What `FoldsMints` says about one height of a chain. -/
def WitnessContext.foldsAt (ctx : WitnessContext) (start height : Nat) : Bool :=
  decide (ctx.getPubcoinFromBlock height = .ok (ctx.mintsAt true height)) &&
  ((ctx.mintsAt true height).all fun coin =>
    decide (coin.denomination ∈ zerocoinDenomList) && coin.validate ctx.lib) &&
  (decide ((height : Int) ≤ ctx.params.nBlockZerocoinV2 + 20) || decide (height % 10 ≠ 0) ||
    zerocoinDenomList.all fun denom =>
      let nCheckpoint := ctx.chainActive[height]?.elim 0 ChainEntry.nAccumulatorCheckpoint
      decide (getAccumulatorValueFromDB ctx.store nCheckpoint denom =
        some (if nCheckpoint = 0 then 0 else ctx.valueOf denom start (height - 10))) &&
      (decide (nCheckpoint ≠ 0) || (ctx.coinsBetween denom start (height - 10)).isEmpty))

/-- A chain whose heights fold their mints, one by one. -/
theorem foldsMints_of_foldsAt {chain : AccumulatorContext} {start : Nat}
    (ranges : ∀ height : Int, chain.params.nBlockZerocoinV2 + 20 < height →
      invalidCheckpointRange chain.params height = false)
    (folds : ∀ height < chain.chainActive.length,
      (witnessContext chain).foldsAt start height = true) :
    (witnessContext chain).FoldsMints start := by
  have parts := fun height bound => Bool.and_eq_true_iff.mp (folds height bound)
  refine ⟨?_, ?_, ?_, ?_, ranges⟩
  · intro height bound
    exact of_decide_eq_true (Bool.and_eq_true_iff.mp (parts height bound).1).1
  · intro height coin member
    exact List.mem_map_of_mem member
  · intro height coin member
    by_cases bound : height < chain.chainActive.length
    · have passed := List.all_eq_true.mp (Bool.and_eq_true_iff.mp (parts height bound).1).2 coin
        member
      simpa using passed
    · have none : chain.chainActive[height]? = none := List.getElem?_eq_none (Nat.not_lt.mp bound)
      have empty : chain.mintsAt true height = [] := by
        simp [AccumulatorContext.mintsAt, none]
      exact absurd (empty ▸ member) List.not_mem_nil
  · intro height entry late tenth here denom proper
    have passed := (parts height (List.getElem?_eq_some_iff.mp here).1).2
    have there : (witnessContext chain).chainActive[height]? = some entry := here
    simp only [there, Option.elim_some, Bool.or_eq_true, decide_eq_true_eq, List.all_eq_true,
      Bool.and_eq_true] at passed
    rcases passed with (early | between) | passed
    · exact absurd early (Int.not_le.mpr late)
    · exact absurd tenth between
    · refine ⟨(passed denom proper).1, fun zero => ?_⟩
      have empty := (passed denom proper).2.resolve_left (not_not.mpr zero)
      exact List.isEmpty_iff.mp empty

/-- A transaction that mints a coin of denomination one. -/
def mintOf (value : UInt8) : CTransaction :=
  { hash := 9000, vin := [], vout := [⟨COIN, [0xc1, 0, 0, 0, 0, 0, value], -10⟩] }

/-- The checkpoint of some coins of denomination one. -/
def checkpointOf (coins : List CBigNum) : Uint256 :=
  (AccumulatorMap.ofValues Libzerocoin.plain (AccumulatorMap.foldMints Libzerocoin.plain
    (fun _ => 961) (coins.map fun value => ⟨value, .one⟩))).getCheckpoint Libzerocoin.plain

/-- Seventy-one blocks, with a mint of the coin 5 at height 25, some mints at height 42 and
one of the coin 11 at height 45. -/
def mintedChain (minted : List UInt8) : AccumulatorContext :=
  checkpointContext ((List.range 71).map fun height =>
    (if height < 40 then 0
      else if height < 60 then checkpointOf [5]
      else checkpointOf (5 :: minted.map (fun value => (value.toNat : Int)) ++ [11]),
     if height = 25 then [mintOf 5]
      else if height = 42 then minted.map mintOf
      else if height = 45 then [mintOf 11]
      else []))

/-- The chain of the examples folds its mints. -/
theorem foldsMints_mintedChain (minted : List UInt8)
    (folds : ∀ height < 71, (witnessContext (mintedChain minted)).foldsAt 20 height = true) :
    (witnessContext (mintedChain minted)).FoldsMints 20 := by
  apply foldsMints_of_foldsAt
  · intro height _
    have range : invalidCheckpointRange (mintedChain minted).params height =
        (decide (height > 999999999) && decide (height < 999999999)) := rfl
    rw [range, Bool.and_eq_false_iff, decide_eq_false_iff_not, decide_eq_false_iff_not]
    omega
  · intro height bound
    apply folds
    have length : (mintedChain minted).chainActive.length = 71 := by
      simp [mintedChain, checkpointContext]
    omega

/-- The coin 7, minted once at height 42, and the checkpoint of height 70. -/
theorem witness_agrees_mintedChain :
    (witnessContext (mintedChain [7])).Agrees ⟨7, .one⟩ 42 20 (some 70) := by
  have chain : (witnessContext (mintedChain [7])).FoldsMints 20 := by
    apply foldsMints_mintedChain
    decide +kernel
  refine (witness_agrees_iff (witnessContext (mintedChain [7])) ⟨7, .one⟩ 42 20 (some 70)
    accumulating_plain rfl chain ⟨rfl, by decide +kernel, by decide +kernel⟩ (by decide) (by decide)
    (Or.inl (by decide)) ?_).mpr ?_
  · intro nHeight checkpoint
    cases checkpoint
    decide +kernel
  · exact ⟨by decide +kernel, by decide, Or.inl rfl⟩

/-- A block that mints the coin twice: both mints are accumulated, and both are left out of
the witness. -/
theorem not_witness_agrees_mintedTwice :
    ¬ ∀ (ctx : WitnessContext) (coin : PublicCoin) (nHeightMintAdded start : Nat)
      (pindexCheckpoint : Option Nat), ctx.lib.Accumulating → ctx.lockMethod = true →
      ctx.FoldsMints start → ctx.MintedAt coin nHeightMintAdded →
      start ≤ accStartHeight nHeightMintAdded →
      ctx.params.nBlockZerocoinV2 + 20 < (accStartHeight nHeightMintAdded + 10 : Nat) →
      (ctx.stopHeight pindexCheckpoint ≤ 1050010 ∨ 1050010 < accStartHeight nHeightMintAdded) →
      (∀ nHeight ∈ pindexCheckpoint, nHeight % 10 = 0 ∧
        (nHeightMintAdded : Int) < nHeight - 10 ∧ nHeight < ctx.chainActive.length) →
      ctx.Agrees coin nHeightMintAdded start pindexCheckpoint := by
  intro agrees
  have chain : (witnessContext (mintedChain [7, 7])).FoldsMints 20 := by
    apply foldsMints_mintedChain
    decide +kernel
  obtain ⟨scan, -, -, -, same, -⟩ := agrees (witnessContext (mintedChain [7, 7])) ⟨7, .one⟩ 42 20
    (some 70) accumulating_plain rfl chain ⟨rfl, by decide +kernel, by decide +kernel⟩ (by decide)
    (by decide) (Or.inl (by decide)) (by
      intro nHeight checkpoint
      cases checkpoint
      decide +kernel)
  have once := (WitnessContext.perm_iff_count (by decide) (by decide)).mp same
  revert once
  decide +kernel

end GiantCore
