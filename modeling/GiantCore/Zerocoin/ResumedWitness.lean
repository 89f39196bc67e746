import GiantCore.Zerocoin.Witness

/-! # Witnesses that are resumed

`witness.cpp` keeps the witness of a coin between calls, with the height that it was
accumulated up to, so that a later call goes on from there. The coins and the height come
out as in a single call, also where a call crosses the range that was accumulated twice.
The number of mints does not: every call that succeeds adds the coins of the first
accumulator once more.
-/

namespace GiantCore

open CoinDenomination

/-- `CoinWitnessData`. The accumulator is a null pointer before the first call, which sets
it before anything reads it. -/
structure CoinWitnessData where
  coin : PublicCoin
  pAccumulator : Accumulator
  pWitness : AccumulatorWitness
  nHeightCheckpoint : Int
  nHeightMintAdded : Nat
  nHeightAccStart : Nat
  nHeightAccEnd : Nat
  nMintsAdded : Nat
  deriving DecidableEq, Repr

namespace CoinWitnessData

variable (lib : Libzerocoin)

/-- A new `CoinWitnessData` for a mint at a height. -/
def ofMint (coin : PublicCoin) (nHeight : Nat) : CoinWitnessData where
  coin
  pAccumulator := Accumulator.fresh lib false coin.denomination
  pWitness := ⟨Accumulator.fresh lib false coin.denomination, coin⟩
  nHeightCheckpoint := 0
  nHeightMintAdded := 0
  nHeightAccStart := nHeight
  nHeightAccEnd := 0
  nMintsAdded := 0

/-- `SetHeightMintAdded`. -/
def setHeightMintAdded (data : CoinWitnessData) (nHeight : Nat) : CoinWitnessData :=
  { data with
    nHeightMintAdded := nHeight
    nHeightCheckpoint := (nHeight + (10 - nHeight % 10) : Nat)
    nHeightAccStart := nHeight - nHeight % 10 }

/-- Nothing was accumulated so far, so the accumulator and the witness are new. -/
def reset (data : CoinWitnessData) : CoinWitnessData :=
  if data.nHeightAccEnd = 0 then
    { data with
      pAccumulator := Accumulator.fresh lib false data.coin.denomination
      pWitness := ⟨Accumulator.fresh lib false data.coin.denomination, data.coin⟩ }
  else data

end CoinWitnessData

/-- `Load` of a checkpoint when its result is not looked at: the values up to the first one
that is not in the database are set. -/
def AccumulatorMap.loadKnown (store : AccumulatorStore) (nCheckpoint : Uint256)
    (accumulators : AccumulatorMap) : AccumulatorMap :=
  let known := zerocoinDenomList.takeWhile fun denom =>
    (store.zerocoinDB (parseChecksum nCheckpoint denom)).isSome
  known.foldl (fun accumulators denom =>
    accumulators.setValue denom ((store.zerocoinDB (parseChecksum nCheckpoint denom)).getD 0))
    accumulators

/-- `GetAccumulator`. -/
def AccumulatorMap.getAccumulator (lib : Libzerocoin) (accumulators : AccumulatorMap)
    (denom : CoinDenomination) : Accumulator :=
  Accumulator.ofValue lib accumulators.useModulusV1 denom
    (if denom = .error then 0 else (accumulators.mapAccumulators denom).value)

namespace WitnessContext

variable (ctx : WitnessContext)

/-- The loop of `AccumulateRange`. What was added before an exception stays. -/
def accumulateFrom (nHeightEnd : Int) (fDoubleCounted : Bool) (height : Nat)
    (data : CoinWitnessData) : CoinWitnessData × Except WitnessFailure Unit :=
  if height < ctx.chainActive.length ∧ (height : Int) ≤ nHeightEnd then
    match ctx.addBlockMintsToAccumulator data.coin data.nHeightMintAdded height true
        data.pAccumulator with
    | .error failure => (data, .error failure)
    | .ok (pAccumulator, nMintsAdded) =>
        let data := { data with
          pAccumulator, nMintsAdded := data.nMintsAdded + nMintsAdded, nHeightAccEnd := height }
        if (height : Int) = ctx.params.nBlockDoubleAccumulated + 10 ∧ fDoubleCounted = false then
          if ctx.params.nBlockDoubleAccumulated < 0 then (data, .ok ())
          else accumulateFrom nHeightEnd true ctx.params.nBlockDoubleAccumulated.toNat data
        else accumulateFrom nHeightEnd fDoubleCounted (height + 1) data
  else (data, .ok ())
termination_by ((!fDoubleCounted).toNat, ctx.chainActive.length - height)
decreasing_by
  · rename_i again _
    rw [again.2]
    exact Prod.Lex.left _ _ (by decide)
  · exact Prod.Lex.right _ (by omega)

/-- `AccumulateRange`. -/
def accumulateRange (data : CoinWitnessData) (nHeightEnd : Int) :
    CoinWitnessData × Except WitnessFailure Unit :=
  ctx.accumulateFrom nHeightEnd false (max data.nHeightAccStart (data.nHeightAccEnd + 1)) data

/-- The stop height of a call: below a checkpoint, rounded to ten blocks. -/
def resumeStop : Option Nat → Int
  | some nHeight => (nHeight - 10 : Int) - (nHeight - 10 : Int).tmod 10
  | none => ctx.deepHeight

/-- The first value of the accumulator, where nothing was accumulated so far. -/
def setFirstValue (data : CoinWitnessData) : Except WitnessFailure CoinWitnessData :=
  if data.nHeightAccEnd = 0 then do
    match ← ctx.getAccumulatorValue data.nHeightCheckpoint data.coin.denomination with
    | none => return data
    | some (nHeightCheckpoint, bnAccValue) =>
        return { data with
          nHeightCheckpoint
          pAccumulator := { data.pAccumulator with
            value := (Accumulator.ofValue ctx.lib false data.coin.denomination bnAccValue).value } }
  else .ok data

/-- The end of a call: the witness is compared with the checkpoint ten blocks above the stop
height, and the coins of the first accumulator are counted. -/
def finishWitness (mapAccumulators : AccumulatorMap) (nHeightStop : Int)
    (data : CoinWitnessData) : CoinWitnessData × Except WitnessFailure AccumulatorMap :=
  match ctx.pindexAt (nHeightStop + 10) with
  | none => (data, .error .nullIndex)
  | some pindex =>
      let mapAccumulators := mapAccumulators.loadKnown ctx.store pindex.nAccumulatorCheckpoint
      let data := { data with pWitness := data.pWitness.resetValue data.pAccumulator data.coin }
      match data.pWitness.verifyWitness ctx.lib
          (mapAccumulators.getAccumulator ctx.lib data.coin.denomination) data.coin with
      | .error text => (data, .error (.exception text))
      | .ok false => (data, .error (.error "failed to verify witness"))
      | .ok true =>
          if (data.nMintsAdded : Int) < ctx.params.nRequiredAccumulation then
            (data, .error (.error "Less than the required mints added, unable to create spend"))
          else
            match ctx.computeAccumulatedCoins data.nHeightAccStart data.coin.denomination with
            | .error failure => (data, .error failure)
            | .ok accumulated =>
                ({ data with nMintsAdded := data.nMintsAdded + accumulated }, .ok mapAccumulators)

end WitnessContext

/-- The arguments of a call other than the `CoinWitnessData`, and the node at that time. -/
structure WitnessCall where
  ctx : WitnessContext
  mapAccumulators : AccumulatorMap
  pindexCheckpoint : Option Nat

namespace WitnessCall

variable (call : WitnessCall)

/-- `nHeightStop`. -/
def nHeightStop : Int := call.ctx.resumeStop call.pindexCheckpoint

/-- `GenerateAccumulatorWitness` for a `CoinWitnessData`. -/
def generateAccumulatorWitness (data : CoinWitnessData) :
    CoinWitnessData × Except WitnessFailure AccumulatorMap :=
  if !call.ctx.lockMethod then (data, .error (.error "could not get lock on cs_main"))
  else
    let data := data.reset call.ctx.lib
    match call.ctx.searchMintHeightOf data.coin.value with
    | .error failure => (data, .error failure)
    | .ok nHeight =>
        let data := data.setHeightMintAdded nHeight
        match call.ctx.setFirstValue data with
        | .error failure => (data, .error failure)
        | .ok data =>
            let (data, ranged) :=
              if call.nHeightStop > data.nHeightAccEnd then
                call.ctx.accumulateRange data (call.nHeightStop - 1)
              else (data, .ok ())
            match ranged with
            | .error failure => (data, .error failure)
            | .ok () => call.ctx.finishWitness call.mapAccumulators call.nHeightStop data

end WitnessCall

/-- Call after call on the same `CoinWitnessData`. -/
def resumeWitness (data : CoinWitnessData) (calls : List WitnessCall) : CoinWitnessData :=
  calls.foldl (fun data call => (call.generateAccumulatorWitness data).1) data

/-! ## The heights of a range -/

/-- The heights that are accumulated from one up to another: those of the double range come
twice. -/
def scannedHeights (double start stop : Nat) : List Nat :=
  if start ≤ double + 10 ∧ double + 10 < stop then
    List.range' start (double + 11 - start) ++ List.range' double (stop - double)
  else List.range' start (stop - start)

section

variable {double start middle stop : Nat}

/-- An empty range has no heights. -/
theorem scannedHeights_of_le (done : stop ≤ start) : scannedHeights double start stop = [] := by
  rw [scannedHeights, if_neg (by omega), Nat.sub_eq_zero_of_le done]
  rfl

/-- Before the end of the double range one height follows the other. -/
theorem scannedHeights_step (more : start < stop) (before : start ≠ double + 10) :
    scannedHeights double start stop = start :: scannedHeights double (start + 1) stop := by
  unfold scannedHeights
  by_cases crosses : start ≤ double + 10 ∧ double + 10 < stop
  · have count : double + 11 - start = double + 11 - (start + 1) + 1 := by omega
    rw [if_pos crosses, if_pos (by omega), count, List.range'_succ, List.cons_append]
  · have count : stop - start = stop - (start + 1) + 1 := by omega
    rw [if_neg crosses, if_neg (by omega), count, List.range'_succ]

/-- At the end of the double range its heights come again. -/
theorem scannedHeights_double (more : double + 10 < stop) :
    scannedHeights double (double + 10) stop =
      (double + 10) :: List.range' double (stop - double) := by
  have count : double + 11 - (double + 10) = 1 := by omega
  rw [scannedHeights, if_pos ⟨le_rfl, more⟩, count]
  rfl

/-- Two ranges that meet. -/
theorem range'_append_sub (first : start ≤ middle) (second : middle ≤ stop) :
    List.range' start (middle - start) ++ List.range' middle (stop - middle) =
      List.range' start (stop - start) := by
  have whole : stop - start = middle - start + (stop - middle) := by omega
  have meet : start + (middle - start) = middle := by omega
  rw [whole, ← List.range'_append_1, meet]

/-- **A range may be split anywhere.** -/
theorem scannedHeights_append (first : start ≤ middle) (second : middle ≤ stop) :
    scannedHeights double start middle ++ scannedHeights double middle stop =
      scannedHeights double start stop := by
  unfold scannedHeights
  by_cases before : start ≤ double + 10 ∧ double + 10 < middle
  · -- crossed by the first part
    rw [if_pos before, if_neg (by omega), if_pos (by omega), List.append_assoc,
      range'_append_sub (by omega) second]
  · by_cases after : middle ≤ double + 10 ∧ double + 10 < stop
    · -- crossed by the second part
      rw [if_neg before, if_pos after, if_pos (by omega), ← List.append_assoc,
        range'_append_sub first (by omega)]
    · rw [if_neg before, if_neg after, if_neg (by omega), range'_append_sub first second]

/-- All heights lie below the end. -/
theorem mem_scannedHeights {height : Nat} (member : height ∈ scannedHeights double start stop) :
    height < stop := by
  unfold scannedHeights at member
  split at member
  · rcases List.mem_append.mp member with first | second
    · have range := List.mem_range'_1.mp first
      omega
    · have range := List.mem_range'_1.mp second
      omega
  · have range := List.mem_range'_1.mp member
    omega

/-- The last height is the one before the end. -/
theorem getLast?_scannedHeights (more : start < stop) :
    (scannedHeights double start stop).getLast? = some (stop - 1) := by
  unfold scannedHeights
  split
  · rw [List.getLast?_append, List.getLast?_range']
    simp
    omega
  · rw [List.getLast?_range', if_neg (by omega)]
    congr 1
    omega

end

/-! ## One range -/

namespace WitnessContext

variable (ctx : WitnessContext)

/-- The coins of the block at a height that go into the witness of a coin. -/
def coinsAt (coin : PublicCoin) (nHeightMintAdded height : Nat) : List CBigNum :=
  if coin.denomination ∈ ctx.vMintDenominationsInBlock height then
    addedCoins coin nHeightMintAdded height true (ctx.mintsAt true height)
  else []

/-- The blocks of the chain can be read, and the double range does not start below zero. -/
structure Readable : Prop where
  blocks : ∀ height, height < ctx.chainActive.length →
    ctx.getPubcoinFromBlock height = .ok (ctx.mintsAt true height)
  double : 0 ≤ ctx.params.nBlockDoubleAccumulated

/-- The height at which the double range starts. -/
def doubleStart : Nat := ctx.params.nBlockDoubleAccumulated.toNat

/-- The coins of the blocks from a height up to another, as `AccumulateRange` meets them. -/
def rangeCoins (coin : PublicCoin) (nHeightMintAdded start stop : Nat) : List CBigNum :=
  (scannedHeights ctx.doubleStart start stop).flatMap (ctx.coinsAt coin nHeightMintAdded)

/-- The data after the blocks at some heights. -/
def addHeights (heights : List Nat) (data : CoinWitnessData) : CoinWitnessData :=
  let coins := heights.flatMap (ctx.coinsAt data.coin data.nHeightMintAdded)
  { data with
    pAccumulator := data.pAccumulator.addCoins ctx.lib coins
    nMintsAdded := data.nMintsAdded + coins.length
    nHeightAccEnd := heights.getLast?.getD data.nHeightAccEnd }

variable {ctx} {coin : PublicCoin} {height stop : Nat} {data : CoinWitnessData}

/-- Heights are added one after the other. -/
theorem addHeights_cons (height : Nat) (heights : List Nat) (data : CoinWitnessData) :
    ctx.addHeights (height :: heights) data =
      ctx.addHeights heights (ctx.addHeights [height] data) := by
  cases heights with
  | nil => rfl
  | cons next rest =>
      obtain ⟨last, found⟩ : ∃ last, (next :: rest).getLast? = some last :=
        ⟨_, List.getLast?_eq_some_getLast (List.cons_ne_nil next rest)⟩
      simp [addHeights, Accumulator.addCoins, foldCoins_append, Nat.add_assoc,
        List.getLast?_cons_cons, found]

/-- What one height adds. -/
theorem addHeights_singleton (height : Nat) (data : CoinWitnessData) :
    ctx.addHeights [height] data =
      { data with
        pAccumulator := data.pAccumulator.addCoins ctx.lib
          (ctx.coinsAt data.coin data.nHeightMintAdded height)
        nMintsAdded := data.nMintsAdded +
          (ctx.coinsAt data.coin data.nHeightMintAdded height).length
        nHeightAccEnd := height } := by
  simp [addHeights]

/-- A round of the loop. -/
theorem Readable.addBlockMintsToAccumulator_eq (readable : ctx.Readable)
    (inChain : height < ctx.chainActive.length) {nHeightMintAdded : Nat}
    {accumulator : Accumulator} (second : accumulator.useModulusV1 = false) :
    ctx.addBlockMintsToAccumulator coin nHeightMintAdded height true accumulator =
      .ok (accumulator.addCoins ctx.lib (ctx.coinsAt coin nHeightMintAdded height),
        (ctx.coinsAt coin nHeightMintAdded height).length) := by
  unfold addBlockMintsToAccumulator coinsAt
  split
  · rw [readable.blocks height inChain, ← foldl_increment second]
    rfl
  · rfl

/-- Once the double range was counted, the loop goes up to its end. -/
theorem Readable.accumulateFrom_counted (readable : ctx.Readable) {rounds : Nat}
    (inChain : height + rounds ≤ ctx.chainActive.length)
    (second : data.pAccumulator.useModulusV1 = false) :
    ctx.accumulateFrom ((height + rounds : Nat) - 1) true height data =
      (ctx.addHeights (List.range' height rounds) data, .ok ()) := by
  induction rounds generalizing height data with
  | zero =>
      rw [accumulateFrom, if_neg (by omega)]
      rfl
  | succ rounds ih =>
      have place : height + (rounds + 1) = height + 1 + rounds := by omega
      rw [accumulateFrom, if_pos (by omega), readable.addBlockMintsToAccumulator_eq (by omega)
        second]
      simp only [Bool.true_eq_false, and_false, if_false]
      rw [place, List.range'_succ, addHeights_cons, ← addHeights_singleton]
      exact ih (by omega) second

/-- **The loop of a range** meets the heights of the range, with the double range twice. -/
theorem Readable.accumulateFrom_eq (readable : ctx.Readable) {rounds : Nat}
    (inChain : height + rounds ≤ ctx.chainActive.length)
    (second : data.pAccumulator.useModulusV1 = false) :
    ctx.accumulateFrom ((height + rounds : Nat) - 1) false height data =
      (ctx.addHeights (scannedHeights ctx.doubleStart height (height + rounds)) data, .ok ()) := by
  have double : (ctx.doubleStart : Int) = ctx.params.nBlockDoubleAccumulated :=
    Int.toNat_of_nonneg readable.double
  induction rounds generalizing height data with
  | zero =>
      rw [accumulateFrom, if_neg (by omega), scannedHeights_of_le (by omega)]
      rfl
  | succ rounds ih =>
      rw [accumulateFrom, if_pos (by omega), readable.addBlockMintsToAccumulator_eq (by omega)
        second]
      dsimp only
      rw [← addHeights_singleton]
      by_cases ends : height = ctx.doubleStart + 10
      · subst ends
        have low : ¬ ctx.params.nBlockDoubleAccumulated < 0 := by omega
        have place : ctx.doubleStart + 10 + (rounds + 1) = ctx.doubleStart + (rounds + 11) := by
          omega
        have count : ctx.doubleStart + (rounds + 11) - ctx.doubleStart = rounds + 11 := by omega
        rw [if_pos ⟨by omega, rfl⟩, if_neg low, scannedHeights_double (by omega), place, count,
          addHeights_cons _ (List.range' _ _)]
        exact readable.accumulateFrom_counted (by omega) second
      · have place : height + (rounds + 1) = height + 1 + rounds := by omega
        rw [if_neg fun both => ends (by omega), scannedHeights_step (by omega) ends, place,
          addHeights_cons _ (scannedHeights _ _ _)]
        exact ih (by omega) second

end WitnessContext

/-! ## One call -/

namespace WitnessCall

variable (call : WitnessCall) (coin : PublicCoin) (nHeightMintAdded : Nat)

/-- The stop height, or zero if it is below. -/
def stop : Nat := call.nHeightStop.toNat

/-- The accumulator that a witness starts from. -/
def firstAccumulator : Accumulator :=
  match call.ctx.getAccumulatorValue (accStartHeight nHeightMintAdded + 10 : Nat)
      coin.denomination with
  | .ok (some (_, bnAccValue)) =>
      Accumulator.ofValue call.ctx.lib false coin.denomination bnAccValue
  | _ => Accumulator.fresh call.ctx.lib false coin.denomination

/-- The first height of the range. The first block of the chain is never accumulated. -/
def startOf (nHeightMintAdded : Nat) : Nat := max (accStartHeight nHeightMintAdded) 1

/-- The coins between the coin's ten blocks and the stop height. -/
def coins : List CBigNum :=
  call.ctx.rangeCoins coin nHeightMintAdded (startOf nHeightMintAdded) call.stop

/-- The accumulator of the witness at the stop height. -/
def accumulator : Accumulator :=
  (call.firstAccumulator coin nHeightMintAdded).addCoins call.ctx.lib
    (call.coins coin nHeightMintAdded)

/-- The coins in the first accumulator, as they are counted when a call succeeds. -/
def accumulatedBefore : Nat :=
  match call.ctx.computeAccumulatedCoins (accStartHeight nHeightMintAdded) coin.denomination with
  | .ok accumulated => accumulated
  | .error _ => 0

/-- The accumulator of the checkpoint that a witness is compared with. -/
def checkpointAccumulator (pindex : ChainEntry) : Accumulator :=
  (call.mapAccumulators.loadKnown call.ctx.store pindex.nAccumulatorCheckpoint).getAccumulator
    call.ctx.lib coin.denomination

/-- A witness of a value verifies against the checkpoint of the stop height. -/
def verifies (witnessAccumulator : Accumulator) : Bool :=
  (call.ctx.pindexAt (call.nHeightStop + 10)).any fun pindex =>
    decide (((AccumulatorWitness.mk (Accumulator.fresh call.ctx.lib false coin.denomination)
      coin).resetValue witnessAccumulator coin).verifyWitness call.ctx.lib
        (call.checkpointAccumulator coin pindex) coin = .ok true)

/-- The coin can be spent at the stop height: the witness that holds the coins up to there
verifies, and enough coins are between the coin's ten blocks and the stop height. -/
def spendable : Bool :=
  call.verifies coin (call.accumulator coin nHeightMintAdded) &&
    decide (call.ctx.params.nRequiredAccumulation ≤ (call.coins coin nHeightMintAdded).length)

/-- The node can make a witness for a coin that was minted at a height of its chain. -/
structure Serves : Prop where
  locked : call.ctx.lockMethod = true
  found : call.ctx.searchMintHeightOf coin.value = .ok nHeightMintAdded
  inChain : nHeightMintAdded < call.ctx.chainActive.length
  readable : call.ctx.Readable
  /-- The checkpoint is a block of the chain. -/
  checkpoint : ∀ nHeight ∈ call.pindexCheckpoint, nHeight < call.ctx.chainActive.length
  /-- The checkpoints that are written out in the source have every denomination. -/
  values : ∃ value, call.ctx.getAccumulatorValue (accStartHeight nHeightMintAdded + 10 : Nat)
    coin.denomination = .ok value

variable {call coin nHeightMintAdded} {data : CoinWitnessData}

/-- The stop height is divisible by ten, and the checkpoint above it is in the chain. -/
theorem Serves.stop_bounds (serves : call.Serves coin nHeightMintAdded) :
    call.stop % 10 = 0 ∧ (call.stop = 0 ∨ call.stop + 10 < call.ctx.chainActive.length) := by
  have inChain := serves.inChain
  have checkpoint := serves.checkpoint
  unfold stop nHeightStop WitnessContext.resumeStop
  cases which : call.pindexCheckpoint with
  | none =>
      unfold WitnessContext.deepHeight WitnessContext.height
      dsimp only
      rw [Int.tmod_eq_emod_of_nonneg (by omega)]
      omega
  | some nHeight =>
      have bound := checkpoint nHeight which
      dsimp only
      by_cases low : nHeight < 10
      · have small : ((nHeight : Int) - 10).tmod 10 = -((10 - nHeight : Int) % 10) := by
          rw [show (nHeight : Int) - 10 = -(10 - nHeight) by ring, Int.neg_tmod,
            Int.tmod_eq_emod_of_nonneg (by omega)]
        rw [small]
        omega
      · rw [Int.tmod_eq_emod_of_nonneg (by omega)]
        omega

end WitnessCall

/-- The coin of the data, and a witness under the parameters of the second version. -/
structure CoinWitnessData.Holds (data : CoinWitnessData) (coin : PublicCoin) : Prop where
  same : data.coin = coin
  witness : ∃ value, data.pWitness.witness = ⟨false, coin.denomination, value⟩
  modulus : data.pAccumulator.useModulusV1 = false

namespace WitnessCall

variable {call : WitnessCall} {coin : PublicCoin} {nHeightMintAdded : Nat}
  {data : CoinWitnessData}

/-- The first accumulator has the new modulus. -/
theorem firstAccumulator_modulus :
    (call.firstAccumulator coin nHeightMintAdded).useModulusV1 = false := by
  unfold firstAccumulator
  split
  · rfl
  · rfl

/-- What a call has before it looks at the chain: where nothing was accumulated so far the
accumulator is the first one. -/
theorem Serves.prepare (serves : call.Serves coin nHeightMintAdded) (holds : data.Holds coin) :
    ∃ prepared, call.ctx.setFirstValue
        ((data.reset call.ctx.lib).setHeightMintAdded nHeightMintAdded) = .ok prepared ∧
      prepared.Holds coin ∧ prepared.nHeightMintAdded = nHeightMintAdded ∧
      prepared.nHeightAccStart = accStartHeight nHeightMintAdded ∧
      prepared.nHeightAccEnd = data.nHeightAccEnd ∧ prepared.nMintsAdded = data.nMintsAdded ∧
      prepared.pAccumulator =
        if data.nHeightAccEnd = 0 then call.firstAccumulator coin nHeightMintAdded
        else data.pAccumulator := by
  obtain ⟨same, witness, modulus⟩ := holds
  have next : nHeightMintAdded + (10 - nHeightMintAdded % 10) =
      accStartHeight nHeightMintAdded + 10 := by
    unfold accStartHeight
    omega
  by_cases empty : data.nHeightAccEnd = 0
  · obtain ⟨value, read⟩ := serves.values
    have modulus : (call.firstAccumulator coin nHeightMintAdded).useModulusV1 = false :=
      firstAccumulator_modulus
    unfold WitnessContext.setFirstValue CoinWitnessData.setHeightMintAdded CoinWitnessData.reset
    simp only [if_pos empty, same, next, read, bind, Except.bind, firstAccumulator] at modulus ⊢
    cases value with
    | none => exact ⟨_, rfl, ⟨rfl, ⟨_, rfl⟩, modulus⟩, rfl, rfl, rfl, rfl, rfl⟩
    | some found => exact ⟨_, rfl, ⟨rfl, ⟨_, rfl⟩, modulus⟩, rfl, rfl, rfl, rfl, rfl⟩
  · unfold WitnessContext.setFirstValue CoinWitnessData.setHeightMintAdded CoinWitnessData.reset
    simp only [if_neg empty]
    exact ⟨_, rfl, ⟨same, witness, modulus⟩, rfl, rfl, rfl, rfl, rfl⟩

/-- The range of a call. -/
theorem Serves.range (serves : call.Serves coin nHeightMintAdded) (holds : data.Holds coin)
    (starts : data.nHeightAccStart = accStartHeight nHeightMintAdded) :
    (if call.nHeightStop > data.nHeightAccEnd then
        call.ctx.accumulateRange data (call.nHeightStop - 1)
      else (data, .ok ())) =
      (call.ctx.addHeights (scannedHeights call.ctx.doubleStart
        (max (accStartHeight nHeightMintAdded) (data.nHeightAccEnd + 1)) call.stop) data,
        .ok ()) := by
  have bounds := serves.stop_bounds.2
  by_cases more : call.nHeightStop > data.nHeightAccEnd
  · have whole : call.nHeightStop = call.stop := by
      unfold stop
      omega
    rw [if_pos more, WitnessContext.accumulateRange, starts, whole]
    generalize max (accStartHeight nHeightMintAdded) (data.nHeightAccEnd + 1) = height
    by_cases above : height ≤ call.stop
    · obtain ⟨rounds, ends⟩ := Nat.exists_eq_add_of_le above
      rw [ends]
      exact serves.readable.accumulateFrom_eq (by omega) holds.modulus
    · rw [WitnessContext.accumulateFrom, if_neg (by omega), scannedHeights_of_le (by omega)]
      rfl
  · have done : call.stop ≤ max (accStartHeight nHeightMintAdded) (data.nHeightAccEnd + 1) := by
      unfold stop
      omega
    rw [if_neg more, scannedHeights_of_le done]
    rfl

/-- The end of a call changes the count of mints and nothing else that is kept. -/
theorem finish (holds : data.Holds coin)
    (starts : data.nHeightAccStart = accStartHeight nHeightMintAdded) {result : CoinWitnessData}
    (ends : (call.ctx.finishWitness call.mapAccumulators call.nHeightStop data).1 = result) :
    result.Holds coin ∧ result.pAccumulator = data.pAccumulator ∧
      result.nHeightAccEnd = data.nHeightAccEnd ∧
      result.nMintsAdded = data.nMintsAdded +
        (call.verifies coin data.pAccumulator &&
          decide (call.ctx.params.nRequiredAccumulation ≤ data.nMintsAdded)).toNat *
        call.accumulatedBefore coin nHeightMintAdded := by
  obtain ⟨rfl, ⟨value, witness⟩, modulus⟩ := holds
  subst ends
  unfold WitnessContext.finishWitness verifies accumulatedBefore checkpointAccumulator
  cases call.ctx.pindexAt (call.nHeightStop + 10) with
  | none => exact ⟨⟨rfl, ⟨value, witness⟩, modulus⟩, rfl, rfl, by simp⟩
  | some pindex =>
      have reset : data.pWitness.resetValue data.pAccumulator data.coin =
          (AccumulatorWitness.mk (Accumulator.fresh call.ctx.lib false data.coin.denomination)
            data.coin).resetValue data.pAccumulator data.coin := by
        rw [AccumulatorWitness.resetValue, AccumulatorWitness.resetValue, witness]
        rfl
      have kept : ∃ value, (data.pWitness.resetValue data.pAccumulator data.coin).witness =
          ⟨false, data.coin.denomination, value⟩ := by
        rw [AccumulatorWitness.resetValue, witness]
        exact ⟨_, rfl⟩
      dsimp only
      rw [starts, Option.any_some, ← reset]
      generalize (data.pWitness.resetValue data.pAccumulator data.coin).verifyWitness call.ctx.lib
        _ data.coin = verified
      rcases verified with text | (_ | _)
      · exact ⟨⟨rfl, kept, modulus⟩, rfl, rfl, by simp⟩
      · exact ⟨⟨rfl, kept, modulus⟩, rfl, rfl, by simp⟩
      · dsimp only
        by_cases few : (data.nMintsAdded : Int) < call.ctx.params.nRequiredAccumulation
        · rw [if_pos few]
          exact ⟨⟨rfl, kept, modulus⟩, rfl, rfl, by simp [few]⟩
        · have enough : call.ctx.params.nRequiredAccumulation ≤ (data.nMintsAdded : Int) :=
            Int.not_lt.mp few
          rw [if_neg few]
          cases call.ctx.computeAccumulatedCoins (accStartHeight nHeightMintAdded)
              data.coin.denomination with
          | error failure => exact ⟨⟨rfl, kept, modulus⟩, rfl, rfl, by simp⟩
          | ok accumulated => exact ⟨⟨rfl, kept, modulus⟩, rfl, rfl, by simp [enough]⟩

/-- **One call** adds the coins from where it goes on up to its stop height, and once more
those of the first accumulator if it succeeds. -/
theorem Serves.generateAccumulatorWitness_eq (serves : call.Serves coin nHeightMintAdded)
    (holds : data.Holds coin) {start : Nat}
    (starts : max (accStartHeight nHeightMintAdded) (data.nHeightAccEnd + 1) = start)
    {before after : Accumulator}
    (first : (if data.nHeightAccEnd = 0 then call.firstAccumulator coin nHeightMintAdded
      else data.pAccumulator) = before)
    {added : List CBigNum}
    (adds : call.ctx.rangeCoins coin nHeightMintAdded start call.stop = added)
    (accumulates : before.addCoins call.ctx.lib added = after) {result : CoinWitnessData}
    (ends : (call.generateAccumulatorWitness data).1 = result) :
    result.Holds coin ∧ result.pAccumulator = after ∧
      result.nHeightAccEnd = (if start < call.stop then call.stop - 1 else data.nHeightAccEnd) ∧
      result.nMintsAdded = data.nMintsAdded + added.length +
        (call.verifies coin after && decide (call.ctx.params.nRequiredAccumulation ≤
          (data.nMintsAdded + added.length : Nat))).toNat *
        call.accumulatedBefore coin nHeightMintAdded := by
  obtain ⟨prepared, sets, ready, minted, begins, same, mints, accumulator⟩ := serves.prepare holds
  have found : call.ctx.searchMintHeightOf (data.reset call.ctx.lib).coin.value =
      .ok nHeightMintAdded := by
    have coin : (data.reset call.ctx.lib).coin = data.coin := by
      unfold CoinWitnessData.reset
      split
      · rfl
      · rfl
    rw [coin, holds.same, serves.found]
  unfold generateAccumulatorWitness at ends
  simp only [serves.locked, Bool.not_true, Bool.false_eq_true, if_false, found, sets,
    serves.range ready begins] at ends
  rw [same, starts] at ends
  -- the coins of the heights are the coins of the range
  have coins : (scannedHeights call.ctx.doubleStart start call.stop).flatMap
      (call.ctx.coinsAt prepared.coin prepared.nHeightMintAdded) = added := by
    rw [ready.same, minted]
    exact adds
  have kept : (call.ctx.addHeights (scannedHeights call.ctx.doubleStart start call.stop)
      prepared).Holds coin := ⟨ready.same, ready.witness, ready.modulus⟩
  obtain ⟨whole, value, ended, count⟩ := finish kept begins ends
  have total : (call.ctx.addHeights (scannedHeights call.ctx.doubleStart start call.stop)
      prepared).pAccumulator = after := by
    unfold WitnessContext.addHeights
    dsimp only
    rw [coins, accumulator, first, accumulates]
  have number : (call.ctx.addHeights (scannedHeights call.ctx.doubleStart start call.stop)
      prepared).nMintsAdded = data.nMintsAdded + added.length := by
    unfold WitnessContext.addHeights
    dsimp only
    rw [coins, mints]
  refine ⟨whole, value.trans total, ended.trans ?_, ?_⟩
  · unfold WitnessContext.addHeights
    dsimp only
    by_cases more : start < call.stop
    · rw [if_pos more, getLast?_scannedHeights more]
      rfl
    · rw [if_neg more, scannedHeights_of_le (Nat.not_lt.mp more)]
      exact same
  · rw [count, total, number]

end WitnessCall

/-! ## A chain that grows -/

/-- The chain of a node only grows: its blocks stay, with their mints and values. -/
structure WitnessContext.GrowsTo (ctx next : WitnessContext) : Prop where
  params : next.params = ctx.params
  lib : next.lib = ctx.lib
  validOutPoint : next.validOutPoint = ctx.validOutPoint
  mapCheckpoints : next.mapCheckpoints = ctx.mapCheckpoints
  store : next.store = ctx.store
  chain : ctx.chainActive <+: next.chainActive
  minted : ∀ height, height < ctx.chainActive.length →
    next.vMintDenominationsInBlock height = ctx.vMintDenominationsInBlock height

namespace WitnessContext.GrowsTo

variable {ctx next : WitnessContext} {coin : PublicCoin}
  {height stop start nHeightMintAdded : Nat}

/-- The blocks of the shorter chain stay in place. -/
theorem getElem? (grows : ctx.GrowsTo next) (inChain : height < ctx.chainActive.length) :
    next.chainActive[height]? = ctx.chainActive[height]? := by
  obtain ⟨rest, whole⟩ := grows.chain
  rw [← whole, List.getElem?_append_left inChain]

/-- The chain does not get shorter. -/
theorem length_le (grows : ctx.GrowsTo next) :
    ctx.chainActive.length ≤ next.chainActive.length := grows.chain.length_le

/-- The coins at a height stay the same. -/
theorem coinsAt (grows : ctx.GrowsTo next) (inChain : height < ctx.chainActive.length) :
    next.coinsAt coin nHeightMintAdded height = ctx.coinsAt coin nHeightMintAdded height := by
  unfold WitnessContext.coinsAt AccumulatorContext.mintsAt
  rw [grows.minted height inChain, grows.getElem? inChain, grows.validOutPoint]

/-- The coins of a range stay the same. -/
theorem rangeCoins (grows : ctx.GrowsTo next) (inChain : stop ≤ ctx.chainActive.length) :
    next.rangeCoins coin nHeightMintAdded start stop =
      ctx.rangeCoins coin nHeightMintAdded start stop := by
  unfold WitnessContext.rangeCoins WitnessContext.doubleStart
  rw [grows.params]
  apply List.flatMap_congr
  intro height member
  exact grows.coinsAt ((mem_scannedHeights member).trans_le inChain)

/-- The accumulator at a height stays the same. -/
theorem getAccumulatorValue (grows : ctx.GrowsTo next) {denom : CoinDenomination}
    (inChain : height < ctx.chainActive.length) :
    next.getAccumulatorValue height denom = ctx.getAccumulatorValue height denom := by
  have longer := grows.length_le
  have lower : ¬ (height : Int) > ctx.height := by
    unfold WitnessContext.height
    omega
  have upper : ¬ (height : Int) > next.height := by
    unfold WitnessContext.height
    omega
  have closest : getClosestCheckpoint next.toAccumulatorContext height =
      getClosestCheckpoint ctx.toAccumulatorContext height := by
    unfold getClosestCheckpoint
    rw [grows.mapCheckpoints]
  have index : next.pindexAt height = ctx.pindexAt height := by
    unfold WitnessContext.pindexAt
    rw [if_neg (by omega), if_neg (by omega), Int.toNat_natCast, grows.getElem? inChain]
  unfold WitnessContext.getAccumulatorValue
  rw [if_neg lower, if_neg upper, index, closest, grows.params, grows.store, grows.lib]

end WitnessContext.GrowsTo

/-- What is counted below a block of the chain. Where the count breaks off there is nothing
to count, or the start of zerocoins is below zero. -/
theorem WitnessCall.accumulatedBefore_eq {call : WitnessCall} {coin : PublicCoin}
    {nHeightMintAdded : Nat} (inChain : nHeightMintAdded < call.ctx.chainActive.length) :
    call.accumulatedBefore coin nHeightMintAdded =
      let start := call.ctx.params.nZerocoinStartHeight
      if start < 0 then 0
      else ((List.range' start.toNat (accStartHeight nHeightMintAdded - start).toNat).map
        fun height => (call.ctx.vMintDenominationsInBlock height).count coin.denomination).sum := by
  have inside := WitnessContext.accStartHeight_le nHeightMintAdded
  unfold accumulatedBefore WitnessContext.computeAccumulatedCoins WitnessContext.height
  dsimp only
  generalize call.ctx.params.nZerocoinStartHeight = start
  by_cases low : start < 0
  · rw [if_pos low, if_pos (Or.inl low)]
  · rw [if_neg low]
    by_cases high : (call.ctx.chainActive.length : Int) - 1 < start
    · have none : ((accStartHeight nHeightMintAdded : Int) - start).toNat = 0 := by omega
      rw [if_pos (Or.inr (Or.inl high)), none]
      rfl
    · rw [if_neg (by omega)]

/-- One call comes before another. -/
structure WitnessCall.Before (call next : WitnessCall) : Prop where
  grows : call.ctx.GrowsTo next.ctx
  stops : call.nHeightStop ≤ next.nHeightStop

namespace WitnessCall.Before

variable {call next : WitnessCall} {coin : PublicCoin} {nHeightMintAdded : Nat}

/-- A later call stops no earlier. -/
theorem stop_le (before : call.Before next) : call.stop ≤ next.stop := by
  have stops := before.stops
  unfold stop
  omega

/-- The coins in the first accumulator stay the same. -/
theorem accumulatedBefore (before : call.Before next)
    (inChain : nHeightMintAdded < call.ctx.chainActive.length) :
    next.accumulatedBefore coin nHeightMintAdded =
      call.accumulatedBefore coin nHeightMintAdded := by
  have inside := WitnessContext.accStartHeight_le nHeightMintAdded
  have longer := before.grows.length_le
  rw [accumulatedBefore_eq inChain, accumulatedBefore_eq (inChain.trans_le longer),
    before.grows.params]
  dsimp only
  split
  · rfl
  · congr 1
    apply List.map_congr_left
    intro height member
    have range := List.mem_range'_1.mp member
    rw [before.grows.minted height (by omega)]

/-- A later call starts from the same accumulator. -/
theorem firstAccumulator (before : call.Before next)
    (inChain : accStartHeight nHeightMintAdded + 10 < call.ctx.chainActive.length) :
    next.firstAccumulator coin nHeightMintAdded = call.firstAccumulator coin nHeightMintAdded := by
  unfold WitnessCall.firstAccumulator
  rw [before.grows.getAccumulatorValue inChain, before.grows.lib]

/-- The coins of the later call are those of the earlier one, and those in between. -/
theorem coins (before : call.Before next) (serves : call.Serves coin nHeightMintAdded)
    (begun : startOf nHeightMintAdded ≤ call.stop) :
    next.coins coin nHeightMintAdded = call.coins coin nHeightMintAdded ++
      next.ctx.rangeCoins coin nHeightMintAdded call.stop next.stop := by
  have bounds := serves.stop_bounds.2
  have earlier : call.coins coin nHeightMintAdded = next.ctx.rangeCoins coin nHeightMintAdded
      (startOf nHeightMintAdded) call.stop := (before.grows.rangeCoins (by omega)).symm
  rw [earlier]
  unfold WitnessCall.coins WitnessContext.rangeCoins
  rw [← List.flatMap_append, scannedHeights_append begun before.stop_le]

end WitnessCall.Before

/-! ## Call after call -/

namespace WitnessCall

variable {call next : WitnessCall} {coin : PublicCoin} {nHeightMintAdded successes : Nat}
  {data : CoinWitnessData}

/-- What the data hold after a call, when some number of calls succeeded so far. -/
structure Reached (call : WitnessCall) (coin : PublicCoin) (nHeightMintAdded successes : Nat)
    (data : CoinWitnessData) : Prop where
  holds : data.Holds coin
  accumulator : data.pAccumulator = call.accumulator coin nHeightMintAdded
  accEnd : data.nHeightAccEnd =
    if startOf nHeightMintAdded < call.stop then call.stop - 1 else 0
  mints : data.nMintsAdded = (call.coins coin nHeightMintAdded).length +
    successes * call.accumulatedBefore coin nHeightMintAdded
  enough : 0 < successes → call.ctx.params.nRequiredAccumulation ≤
    (call.coins coin nHeightMintAdded).length

/-- A call that serves has enough coins. -/
theorem toNat_pos_of_spendable
    (positive : 0 < (call.spendable coin nHeightMintAdded).toNat) :
    call.ctx.params.nRequiredAccumulation ≤ (call.coins coin nHeightMintAdded).length := by
  cases spends : call.spendable coin nHeightMintAdded with
  | false => simp [spends] at positive
  | true =>
      unfold spendable at spends
      exact of_decide_eq_true (Bool.and_eq_true_iff.mp spends).2

/-- The first call. -/
theorem Serves.reached_first (serves : call.Serves coin nHeightMintAdded) (nHeight : Nat)
    (lib : Libzerocoin) :
    call.Reached coin nHeightMintAdded (call.spendable coin nHeightMintAdded).toNat
      (call.generateAccumulatorWitness (CoinWitnessData.ofMint lib coin nHeight)).1 := by
  have holds : (CoinWitnessData.ofMint lib coin nHeight).Holds coin := ⟨rfl, ⟨_, rfl⟩, rfl⟩
  obtain ⟨kept, accumulator, accEnd, mints⟩ :=
    serves.generateAccumulatorWitness_eq holds rfl rfl rfl rfl rfl
  refine ⟨kept, accumulator, accEnd, ?_, toNat_pos_of_spendable⟩
  have none : (CoinWitnessData.ofMint lib coin nHeight).nMintsAdded = 0 := rfl
  rw [mints, none, Nat.zero_add]
  rfl

/-- The threshold is passed exactly if the coins up to the stop height are enough: where
earlier calls have raised the count, the coins were enough before. -/
theorem Reached.of_added (reached : call.Reached coin nHeightMintAdded successes data)
    (before : call.Before next) (serves : call.Serves coin nHeightMintAdded)
    {added : List CBigNum}
    (whole : next.coins coin nHeightMintAdded = call.coins coin nHeightMintAdded ++ added)
    {result : CoinWitnessData} (holds : result.Holds coin)
    (accumulator : result.pAccumulator = next.accumulator coin nHeightMintAdded)
    (accEnd : result.nHeightAccEnd =
      if startOf nHeightMintAdded < next.stop then next.stop - 1 else 0)
    (mints : result.nMintsAdded = data.nMintsAdded + added.length +
      (next.verifies coin (next.accumulator coin nHeightMintAdded) &&
        decide (next.ctx.params.nRequiredAccumulation ≤
          (data.nMintsAdded + added.length : Nat))).toNat *
      next.accumulatedBefore coin nHeightMintAdded) :
    next.Reached coin nHeightMintAdded
      (successes + (next.spendable coin nHeightMintAdded).toNat) result := by
  have length := congrArg List.length whole
  rw [List.length_append] at length
  have counted : next.accumulatedBefore coin nHeightMintAdded =
      call.accumulatedBefore coin nHeightMintAdded := before.accumulatedBefore serves.inChain
  have params := before.grows.params
  have kept := reached.enough
  rw [reached.mints, ← counted] at mints
  have threshold : next.ctx.params.nRequiredAccumulation ≤
      ((call.coins coin nHeightMintAdded).length +
        successes * next.accumulatedBefore coin nHeightMintAdded + added.length : Nat) ↔
      next.ctx.params.nRequiredAccumulation ≤ (next.coins coin nHeightMintAdded).length := by
    rw [params]
    rcases Nat.eq_zero_or_pos successes with none | some
    · rw [none, Nat.zero_mul, Nat.add_zero, length]
    · have earlier := kept some
      omega
  refine ⟨holds, accumulator, accEnd, ?_, ?_⟩
  · rw [decide_eq_decide.mpr threshold] at mints
    change result.nMintsAdded = _ + (next.spendable coin nHeightMintAdded).toNat * _ at mints
    rw [mints, Nat.add_mul]
    omega
  · intro positive
    rcases Nat.eq_zero_or_pos successes with none | some
    · rw [none, Nat.zero_add] at positive
      exact toNat_pos_of_spendable positive
    · have earlier := kept some
      rw [params]
      omega

/-- **The next call** goes on where the data were left. -/
theorem Reached.resumed (reached : call.Reached coin nHeightMintAdded successes data)
    (before : call.Before next) (serves : call.Serves coin nHeightMintAdded)
    (servesNext : next.Serves coin nHeightMintAdded) :
    next.Reached coin nHeightMintAdded
      (successes + (next.spendable coin nHeightMintAdded).toNat)
      (next.generateAccumulatorWitness data).1 := by
  have later := before.stop_le
  have accEnd := reached.accEnd
  have bounds := serves.stop_bounds
  by_cases begun : startOf nHeightMintAdded < call.stop
  · rw [if_pos begun] at accEnd
    have low : accStartHeight nHeightMintAdded ≤ startOf nHeightMintAdded := le_max_left _ _
    have one : 1 ≤ startOf nHeightMintAdded := le_max_right _ _
    have starts : max (accStartHeight nHeightMintAdded) (data.nHeightAccEnd + 1) = call.stop := by
      omega
    have ten : accStartHeight nHeightMintAdded + 10 < call.ctx.chainActive.length := by
      have tenth : accStartHeight nHeightMintAdded % 10 = 0 := by
        unfold accStartHeight
        omega
      omega
    have whole := before.coins serves begun.le
    have first : (if data.nHeightAccEnd = 0 then next.firstAccumulator coin nHeightMintAdded
        else data.pAccumulator) = call.accumulator coin nHeightMintAdded := by
      rw [if_neg (by omega), reached.accumulator]
    have accumulates : (call.accumulator coin nHeightMintAdded).addCoins next.ctx.lib
        (next.ctx.rangeCoins coin nHeightMintAdded call.stop next.stop) =
        next.accumulator coin nHeightMintAdded := by
      unfold WitnessCall.accumulator Accumulator.addCoins
      rw [whole, before.firstAccumulator ten, before.grows.lib, foldCoins_append]
    obtain ⟨holds, accumulator, ended, mints⟩ :=
      servesNext.generateAccumulatorWitness_eq reached.holds starts first rfl accumulates rfl
    refine reached.of_added before serves whole holds accumulator ?_ mints
    rw [ended, if_pos (begun.trans_le later)]
    split
    · rfl
    · omega
  · rw [if_neg begun] at accEnd
    have starts : max (accStartHeight nHeightMintAdded) (data.nHeightAccEnd + 1) =
        startOf nHeightMintAdded := by
      rw [accEnd]
      rfl
    have none : call.coins coin nHeightMintAdded = [] := by
      unfold WitnessCall.coins WitnessContext.rangeCoins
      rw [scannedHeights_of_le (Nat.not_lt.mp begun)]
      rfl
    have first : (if data.nHeightAccEnd = 0 then next.firstAccumulator coin nHeightMintAdded
        else data.pAccumulator) = next.firstAccumulator coin nHeightMintAdded := if_pos accEnd
    obtain ⟨holds, accumulator, ended, mints⟩ :=
      servesNext.generateAccumulatorWitness_eq reached.holds starts first rfl rfl rfl
    refine reached.of_added before serves (none ▸ rfl) holds accumulator ?_ mints
    rw [ended, accEnd]

/-- The calls that pass, with one more. -/
theorem countP_concat (calls : List WitnessCall) (last : WitnessCall)
    (test : WitnessCall → Bool) :
    (calls ++ [last]).countP test = calls.countP test + (test last).toNat := by
  rw [List.countP_append, List.countP_singleton]
  cases test last with
  | false => rfl
  | true => rfl

/-- **Every run of calls.** The data hold what the last call asks for, and the count of the
first accumulator once for every call at which the coin could be spent. -/
theorem reached_of_calls (lib : Libzerocoin) (nHeight : Nat) (calls : List WitnessCall)
    (last : WitnessCall) (serves : ∀ call ∈ calls ++ [last], call.Serves coin nHeightMintAdded)
    (grows : (calls ++ [last]).Pairwise WitnessCall.Before) :
    last.Reached coin nHeightMintAdded
      ((calls ++ [last]).countP fun call => call.spendable coin nHeightMintAdded)
      (resumeWitness (CoinWitnessData.ofMint lib coin nHeight) (calls ++ [last])) := by
  induction calls using List.reverseRecOn generalizing last with
  | nil =>
      rw [countP_concat, List.countP_nil, Nat.zero_add]
      exact (serves last List.mem_cons_self).reached_first nHeight lib
  | append_singleton calls call ih =>
      obtain ⟨earlier, -, ordered⟩ := List.pairwise_append.mp grows
      have before : call.Before last :=
        ordered call (List.mem_append_right _ List.mem_cons_self) last List.mem_cons_self
      have reached := ih call (fun other member => serves other (List.mem_append_left _ member))
        earlier
      have servesCall := serves call
        (List.mem_append_left _ (List.mem_append_right _ List.mem_cons_self))
      have servesLast := serves last (List.mem_append_right _ List.mem_cons_self)
      have resumed := reached.resumed before servesCall servesLast
      rw [countP_concat, resumeWitness, List.foldl_append]
      exact resumed

end WitnessCall

/-- The data of a run of calls are those of a single call: the accumulator holds the same
coins on top of the same first accumulator, and the counts and heights are the same. -/
structure SameWitness (last : WitnessCall) (nHeightMintAdded : Nat)
    (resumed single : CoinWitnessData) : Prop where
  resumedCoins : resumed.pAccumulator = last.accumulator single.coin nHeightMintAdded
  singleCoins : single.pAccumulator = last.accumulator single.coin nHeightMintAdded
  nMintsAdded : resumed.nMintsAdded = single.nMintsAdded
  nHeightAccEnd : resumed.nHeightAccEnd = single.nHeightAccEnd

/-- **When a resumed witness is the witness of a single call.** On a chain that only grows,
after calls with stop heights that do not go down, the data are those of a single call if
and only if the first accumulator has no coins to count or the coin could not be spent at
any of the earlier calls. The coins and the height are always the same. -/
theorem resumed_witness_iff (coin : PublicCoin) (nHeightMintAdded nHeight : Nat)
    (lib : Libzerocoin) (calls : List WitnessCall) (last : WitnessCall)
    (serves : ∀ call ∈ calls ++ [last], call.Serves coin nHeightMintAdded)
    (grows : (calls ++ [last]).Pairwise WitnessCall.Before) :
    SameWitness last nHeightMintAdded
        (resumeWitness (CoinWitnessData.ofMint lib coin nHeight) (calls ++ [last]))
        (resumeWitness (CoinWitnessData.ofMint lib coin nHeight) [last]) ↔
      last.accumulatedBefore coin nHeightMintAdded = 0 ∨
        ∀ call ∈ calls, call.spendable coin nHeightMintAdded = false := by
  have resumed := WitnessCall.reached_of_calls lib nHeight calls last serves grows
  have single := WitnessCall.reached_of_calls lib nHeight [] last
    (fun call member => serves call (List.mem_append_right _ member)) (List.pairwise_singleton _ _)
  rw [WitnessCall.countP_concat, List.countP_nil, Nat.zero_add, List.nil_append] at single
  rw [WitnessCall.countP_concat] at resumed
  have counts := resumed.mints
  rw [Nat.add_mul, ← Nat.add_assoc, Nat.add_right_comm, ← single.mints] at counts
  have none : (calls.countP fun call => call.spendable coin nHeightMintAdded) = 0 ↔
      ∀ call ∈ calls, call.spendable coin nHeightMintAdded = false := by
    simp only [List.countP_eq_zero, Bool.not_eq_true]
  constructor
  · intro same
    have extra := counts.symm.trans same.nMintsAdded
    rw [Nat.add_eq_left, Nat.mul_eq_zero, none] at extra
    exact extra.symm
  · intro fair
    have extra := Nat.mul_eq_zero.mpr (fair.symm.imp_left none.mpr)
    refine ⟨?_, ?_, ?_, ?_⟩
    · rw [single.holds.same]
      exact resumed.accumulator
    · rw [single.holds.same]
      exact single.accumulator
    · rw [counts, extra, Nat.add_zero]
    · rw [resumed.accEnd, single.accEnd]

/-! ## Calls of the examples -/

/-- A call on the chain with the coins 5, 7 and 11. -/
def witnessCall (pindexCheckpoint : Option Nat) : WitnessCall where
  ctx := witnessContext (mintedChain [7])
  mapAccumulators := AccumulatorMap.reset Libzerocoin.plain false
  pindexCheckpoint

/-- The calls of the examples serve. -/
theorem serves_witnessCall {pindexCheckpoint : Option Nat}
    (inChain : ∀ nHeight ∈ pindexCheckpoint, nHeight < 71) :
    (witnessCall pindexCheckpoint).Serves ⟨7, .one⟩ 42 := by
  have chain : (witnessContext (mintedChain [7])).FoldsMints 20 := by
    apply foldsMints_mintedChain
    decide +kernel
  have length : (witnessCall pindexCheckpoint).ctx.chainActive.length = 71 := by
    simp [witnessCall, witnessContext, mintedChain, checkpointContext]
  have double : (0 : Int) ≤ 1050010 := by decide
  refine ⟨rfl, rfl, ?_, ⟨chain.readable, double⟩, ?_, ⟨_, rfl⟩⟩
  · rw [length]
    decide
  · intro nHeight member
    rw [length]
    exact inChain nHeight member

/-- The calls of the examples come one after the other. -/
theorem before_witnessCall {first second : Option Nat}
    (stops : (witnessCall first).nHeightStop ≤ (witnessCall second).nHeightStop) :
    (witnessCall first).Before (witnessCall second) :=
  ⟨⟨rfl, rfl, rfl, rfl, rfl, List.prefix_refl _, fun _ _ => rfl⟩, stops⟩

/-- Up to height 40 the coin cannot be spent, so a call up to height 60 is as good as the
first one. -/
theorem resumed_witness_witnessCall :
    SameWitness (witnessCall (some 70)) 42
      (resumeWitness (CoinWitnessData.ofMint Libzerocoin.plain ⟨7, .one⟩ 42)
        ([witnessCall (some 50)] ++ [witnessCall (some 70)]))
      (resumeWitness (CoinWitnessData.ofMint Libzerocoin.plain ⟨7, .one⟩ 42)
        [witnessCall (some 70)]) := by
  refine (resumed_witness_iff ⟨7, .one⟩ 42 42 Libzerocoin.plain [witnessCall (some 50)]
    (witnessCall (some 70)) ?_ ?_).mpr (Or.inr (by decide +kernel))
  · rintro call member
    rcases List.mem_cons.mp member with rfl | member
    · exact serves_witnessCall (by simp)
    · cases List.mem_singleton.mp member
      exact serves_witnessCall (by simp)
  · refine List.pairwise_pair.mpr (before_witnessCall ?_)
    decide +kernel

/-- A second call up to height 60 counts the coin 5 again. -/
theorem not_resumed_witness_witnessCall :
    ¬ ∀ (coin : PublicCoin) (nHeightMintAdded nHeight : Nat) (lib : Libzerocoin)
      (calls : List WitnessCall) (last : WitnessCall),
      (∀ call ∈ calls ++ [last], call.Serves coin nHeightMintAdded) →
      (calls ++ [last]).Pairwise WitnessCall.Before →
      SameWitness last nHeightMintAdded
        (resumeWitness (CoinWitnessData.ofMint lib coin nHeight) (calls ++ [last]))
        (resumeWitness (CoinWitnessData.ofMint lib coin nHeight) [last]) := by
  intro same
  have serves : ∀ call ∈ [witnessCall (some 70)] ++ [witnessCall (some 70)],
      call.Serves ⟨7, .one⟩ 42 := by
    intro call member
    have which : call = witnessCall (some 70) := by simpa using member
    rw [which]
    exact serves_witnessCall (by simp)
  have grows : ([witnessCall (some 70)] ++ [witnessCall (some 70)]).Pairwise WitnessCall.Before :=
    List.pairwise_pair.mpr (before_witnessCall le_rfl)
  have counts := (same _ 42 42 Libzerocoin.plain _ _ serves grows).nMintsAdded
  have twice := (WitnessCall.reached_of_calls Libzerocoin.plain 42 _ _ serves grows).mints
  have once := (WitnessCall.reached_of_calls Libzerocoin.plain 42 [] (witnessCall (some 70))
    (fun call member => serves call (List.mem_append_right _ member))
    (List.pairwise_singleton _ _)).mints
  rw [twice] at counts
  have different := counts.trans once
  revert different
  decide +kernel

end GiantCore
