import GiantCore.Foundation.Loop
import GiantCore.Zerocoin.MintScript
import GiantCore.Zerocoin.ResumedWitness

/-! # The loops over the blocks of a witness

Both overloads of `calculateAccumulatedBlocksFor` walk from a block to a stop height, and
`AccumulateRange` walks to an end height. The first two are one loop with different blocks. At
or above the stop height a block in the invalid range is to be passed, but the round ends without
a step. So these loops end unless the walk comes to such a block.
-/

namespace GiantCore

open CoinDenomination Foundation.Loop

/-- The variables of a loop: `pindex`, which may be null, and `fDoubleCounted`. -/
structure BlockScan (σ : Type) where
  pindex : Option Nat
  fDoubleCounted : Bool
  data : σ

namespace WitnessContext

variable (ctx : WitnessContext)

/-- `chainActive[nHeight]`, which is null above the chain. -/
def blockAt (nHeight : Nat) : Option Nat :=
  if nHeight < ctx.chainActive.length then some nHeight else none

/-! ## One loop -/

section

variable {σ : Type} (addBlock readStop : Nat → σ → Except WitnessFailure σ)
  (nHeightStop : Int)

/-- A round of `calculateAccumulatedBlocksFor`, given what a block adds and what is read at the
stop height. -/
def blocksBody (scan : BlockScan σ) : BlockScan σ ⊕ Except WitnessFailure σ :=
  match scan.pindex with
  | none => .inr (.ok scan.data)
  | some height =>
      if nHeightStop ≤ height then
        -- `continue` without a step
        if invalidCheckpointRange ctx.params height then .inl scan
        else .inr (readStop height scan.data)
      else match addBlock height scan.data with
        | .error failure => .inr (.error failure)
        | .ok data =>
            if height = 1050010 ∧ scan.fDoubleCounted = false then
              .inl ⟨ctx.blockAt 1050000, true, data⟩
            else .inl ⟨ctx.blockAt (height + 1), scan.fDoubleCounted, data⟩

/-- The loop as a function, with a failure of its own where it does not end. -/
def scanBlocks (fDoubleCounted : Bool) (height : Nat) (data : σ) : Except WitnessFailure σ :=
  if height < ctx.chainActive.length then
    if nHeightStop ≤ height then
      if invalidCheckpointRange ctx.params height then .error .endless else readStop height data
    else match addBlock height data with
      | .error failure => .error failure
      | .ok data =>
          if height = 1050010 ∧ fDoubleCounted = false then scanBlocks true 1050000 data
          else scanBlocks fDoubleCounted (height + 1) data
  else .ok data
termination_by ((!fDoubleCounted).toNat, ctx.chainActive.length - height)
decreasing_by
  · rename_i again
    rw [again.2]
    exact Prod.Lex.left _ _ (by decide)
  · exact Prod.Lex.right _ (by omega)

/-- The blocks that the walk adds. -/
def walkedHeights (start : Nat) : List Nat :=
  scannedHeights 1050000 start (min nHeightStop.toNat ctx.chainActive.length)

/-- The end of the walk: the block at the stop height, or the end of the chain. -/
def finishWalk (stop : Nat) (data : σ) : Except WitnessFailure σ :=
  if stop < ctx.chainActive.length then
    if invalidCheckpointRange ctx.params stop then .error .endless else readStop stop data
  else .ok data

variable {ctx addBlock readStop nHeightStop} {fDoubleCounted : Bool} {height : Nat} {data : σ}

/-- **The loop ends** unless the function says that it does not. -/
theorem terminates_iff_ne_endless
    (adds : ∀ height data, addBlock height data ≠ .error .endless)
    (reads : ∀ (height : Nat) data, invalidCheckpointRange ctx.params height = false →
      readStop height data ≠ .error .endless) :
    Terminates (ctx.blocksBody addBlock readStop nHeightStop)
        ⟨ctx.blockAt height, fDoubleCounted, data⟩ ↔
      ctx.scanBlocks addBlock readStop nHeightStop fDoubleCounted height data ≠
        .error .endless := by
  induction fDoubleCounted, height, data using
    scanBlocks.induct ctx addBlock nHeightStop with
  | case1 fDoubleCounted height data inside stops invalid =>
      rw [blockAt, if_pos inside, scanBlocks, if_pos inside, if_pos stops, if_pos invalid]
      refine iff_of_false (not_terminates_of_repeats ?_) (by simp)
      simp [blocksBody, stops, invalid]
  | case2 fDoubleCounted height data inside stops valid =>
      rw [blockAt, if_pos inside, scanBlocks, if_pos inside, if_pos stops, if_neg valid]
      refine iff_of_true ⟨readStop height data, .leave ?_⟩ ?_
      · simp [blocksBody, stops, valid]
      · exact reads height data (Bool.not_eq_true _ ▸ valid)
  | case3 fDoubleCounted height data inside goes failure fails =>
      rw [blockAt, if_pos inside, scanBlocks, if_pos inside, if_neg goes, fails]
      refine iff_of_true ⟨.error failure, .leave ?_⟩ ?_
      · simp [blocksBody, goes, fails]
      · exact fun same => adds height data (fails.trans same)
  | case4 fDoubleCounted height data inside goes next added again ih =>
      rw [blockAt, if_pos inside, scanBlocks, if_pos inside, if_neg goes, added]
      dsimp only
      rw [if_pos again, ← ih]
      apply terminates_iff_of_round
      unfold blocksBody
      dsimp only
      rw [if_neg goes, added]
      dsimp only
      rw [if_pos again]
  | case5 fDoubleCounted height data inside goes next added once ih =>
      rw [blockAt, if_pos inside, scanBlocks, if_pos inside, if_neg goes, added]
      dsimp only
      rw [if_neg once, ← ih]
      apply terminates_iff_of_round
      unfold blocksBody
      dsimp only
      rw [if_neg goes, added]
      dsimp only
      rw [if_neg once]
  | case6 fDoubleCounted height data outside =>
      rw [blockAt, if_neg outside, scanBlocks, if_neg outside]
      exact iff_of_true ⟨.ok data, .leave rfl⟩ (by simp)

theorem scanBlocks_of_le {start : Nat} (stops : nHeightStop.toNat ≤ start) (data : σ) :
    ctx.scanBlocks addBlock readStop nHeightStop fDoubleCounted start data =
      ctx.finishWalk readStop (max start nHeightStop.toNat) data := by
  rw [scanBlocks, finishWalk, max_eq_left stops]
  split
  · rw [if_pos (by omega)]
  · rfl

theorem scanBlocks_of_length_le {start : Nat} (outside : ctx.chainActive.length ≤ start)
    (data : σ) :
    ctx.scanBlocks addBlock readStop nHeightStop fDoubleCounted start data =
      ctx.finishWalk readStop (max start nHeightStop.toNat) data := by
  rw [scanBlocks, finishWalk, if_neg (by omega), if_neg (by omega)]

theorem scanBlocks_of_lt {start : Nat} (inside : start < ctx.chainActive.length)
    (goes : start < nHeightStop.toNat) (data : σ) :
    ctx.scanBlocks addBlock readStop nHeightStop fDoubleCounted start data =
      addBlock start data >>= fun data =>
        if start = 1050010 ∧ fDoubleCounted = false then
          ctx.scanBlocks addBlock readStop nHeightStop true 1050000 data
        else ctx.scanBlocks addBlock readStop nHeightStop fDoubleCounted (start + 1) data := by
  rw [scanBlocks, if_pos inside, if_neg (by omega)]
  cases addBlock start data <;> rfl

/-- Behind the double range the walk takes one block after the other. -/
theorem scanBlocks_true (start : Nat) (data : σ) :
    ctx.scanBlocks addBlock readStop nHeightStop true start data =
      (List.range' start (min nHeightStop.toNat ctx.chainActive.length - start)).foldlM
        (fun data height => addBlock height data) data >>=
      ctx.finishWalk readStop (max start nHeightStop.toNat) := by
  generalize left : ctx.chainActive.length - start = rounds
  induction rounds generalizing start data with
  | zero =>
      rw [scanBlocks_of_length_le (by omega), Nat.sub_eq_zero_of_le (by omega)]
      rfl
  | succ rounds ih =>
      by_cases goes : start < nHeightStop.toNat
      · have count : min nHeightStop.toNat ctx.chainActive.length - start =
            min nHeightStop.toNat ctx.chainActive.length - (start + 1) + 1 := by omega
        have place : max (start + 1) nHeightStop.toNat = max start nHeightStop.toNat := by omega
        rw [scanBlocks_of_lt (by omega) goes, count, List.range'_succ, List.foldlM_cons, bind_assoc]
        refine bind_congr fun data => ?_
        rw [if_neg (by simp), ih (start + 1) data (by omega), place]
      · rw [scanBlocks_of_le (by omega), Nat.sub_eq_zero_of_le (by omega)]
        rfl

/-- **What the loop does**: it adds the blocks of the walk, those of the double range twice, and
reads the block where it stops. -/
theorem scanBlocks_eq (start : Nat) (data : σ) :
    ctx.scanBlocks addBlock readStop nHeightStop false start data =
      (ctx.walkedHeights nHeightStop start).foldlM (fun data height => addBlock height data) data
        >>= ctx.finishWalk readStop (max start nHeightStop.toNat) := by
  generalize left : ctx.chainActive.length - start = rounds
  induction rounds generalizing start data with
  | zero =>
      rw [scanBlocks_of_length_le (by omega), walkedHeights, scannedHeights_of_le (by omega)]
      rfl
  | succ rounds ih =>
      by_cases goes : start < nHeightStop.toNat
      · rw [scanBlocks_of_lt (by omega) goes, walkedHeights]
        by_cases double : start = 1050000 + 10
        · have place : max 1050000 nHeightStop.toNat = max start nHeightStop.toNat := by omega
          rw [double, scannedHeights_double (by omega), List.foldlM_cons, bind_assoc]
          refine bind_congr fun data => ?_
          rw [if_pos ⟨by norm_num, rfl⟩, scanBlocks_true, place, double]
        · have place : max (start + 1) nHeightStop.toNat = max start nHeightStop.toNat := by omega
          rw [scannedHeights_step (by omega) double, List.foldlM_cons, bind_assoc]
          refine bind_congr fun data => ?_
          rw [if_neg (by simpa using double), ih (start + 1) data (by omega), walkedHeights, place]
      · rw [scanBlocks_of_le (by omega), walkedHeights, scannedHeights_of_le (by omega)]
        rfl

/-! ## When the walk gets there -/

/-- A walk gets through if all its blocks can be added. -/
theorem exists_foldlM_eq_ok_iff {readable : Nat → Prop}
    (adds : ∀ height data, (∃ next, addBlock height data = .ok next) ↔ readable height)
    (heights : List Nat) (data : σ) :
    (∃ last, heights.foldlM (fun data height => addBlock height data) data = .ok last) ↔
      ∀ height ∈ heights, readable height := by
  induction heights generalizing data with
  | nil => exact iff_of_true ⟨data, rfl⟩ (by simp)
  | cons first rest ih =>
      rw [List.forall_mem_cons, List.foldlM_cons]
      cases added : addBlock first data with
      | error failure =>
          have unreadable : ¬ readable first := by
            rw [← adds first data, added]
            simp
          exact iff_of_false (by rintro ⟨last, went⟩; cases went) fun all => unreadable all.1
      | ok next =>
          have here : readable first := (adds first data).mp ⟨next, added⟩
          rw [and_iff_right here, ← ih next]
          rfl

theorem foldlM_ne_endless (adds : ∀ height data, addBlock height data ≠ .error .endless)
    (heights : List Nat) (data : σ) :
    heights.foldlM (fun data height => addBlock height data) data ≠ .error .endless := by
  induction heights generalizing data with
  | nil => simp [pure, Except.pure]
  | cons first rest ih =>
      rw [List.foldlM_cons]
      cases added : addBlock first data with
      | error failure =>
          intro endless
          exact adds first data (added.trans endless)
      | ok next => exact ih next

/-- **The loop does not end** exactly if the walk comes to a block in the invalid range. -/
theorem scanBlocks_eq_endless_iff {readable : Nat → Prop}
    (adds : ∀ height data, addBlock height data ≠ .error .endless)
    (reads : ∀ (height : Nat) data, invalidCheckpointRange ctx.params height = false →
      readStop height data ≠ .error .endless)
    (reaches : ∀ height data, (∃ next, addBlock height data = .ok next) ↔ readable height)
    (start : Nat) (data : σ) :
    ctx.scanBlocks addBlock readStop nHeightStop false start data = .error .endless ↔
      max start nHeightStop.toNat < ctx.chainActive.length ∧
        invalidCheckpointRange ctx.params (max start nHeightStop.toNat : Nat) = true ∧
        ∀ height ∈ ctx.walkedHeights nHeightStop start, readable height := by
  rw [scanBlocks_eq, ← exists_foldlM_eq_ok_iff reaches _ data]
  have started := foldlM_ne_endless adds (ctx.walkedHeights nHeightStop start) data
  cases walked : (ctx.walkedHeights nHeightStop start).foldlM
      (fun data height => addBlock height data) data with
  | error failure =>
      rw [walked] at started
      refine iff_of_false (fun same => started same) ?_
      rintro ⟨-, -, last, went⟩
      cases went
  | ok last =>
      show ctx.finishWalk readStop _ last = _ ↔ _
      rw [finishWalk]
      split
      · rename_i inside
        cases invalid : invalidCheckpointRange ctx.params (max start nHeightStop.toNat : Nat) with
        | true => simp [inside]
        | false => simp [reads _ last invalid]
      · rename_i outside
        simp [outside]

end

/-! ## The functions -/

/-- The mints of a denomination in a block can be read, if its index has any. -/
def ReadsMints (den : CoinDenomination) (height : Nat) : Prop :=
  den ∈ ctx.vMintDenominationsInBlock height →
    ∃ listPubcoins, ctx.getPubcoinFromBlock height = .ok listPubcoins

theorem readsMints_iff_isOk {den : CoinDenomination} {height : Nat} :
    (den ∈ ctx.vMintDenominationsInBlock height → (ctx.getPubcoinFromBlock height).isOk = true) ↔
      ctx.ReadsMints den height := by
  unfold ReadsMints
  refine imp_congr_right fun _ => ?_
  cases ctx.getPubcoinFromBlock height with
  | error failure => exact iff_of_false Bool.false_ne_true (by simp)
  | ok listPubcoins => exact iff_of_true rfl ⟨listPubcoins, rfl⟩

instance (den : CoinDenomination) (height : Nat) : Decidable (ctx.ReadsMints den height) :=
  decidable_of_iff _ ctx.readsMints_iff_isOk

/-- `AddBlockMintsToAccumulator` for a filter: the coins that the filter has are left out, and
listed. -/
def addFilteredMints (den : CoinDenomination) (contains : List UInt8 → Bool) (height : Nat)
    (isWitness : Bool) (accumulator : Accumulator) (notAddedCoins : List CBigNum) :
    Except WitnessFailure (Accumulator × Nat × List CBigNum) :=
  if den ∈ ctx.vMintDenominationsInBlock height then do
    let listPubcoins ← ctx.getPubcoinFromBlock height
    let (left, added) := (coinsOf den listPubcoins).partition fun value =>
      isWitness && contains value.getvch
    return (added.foldl (Accumulator.increment ctx.lib) accumulator, added.length,
      notAddedCoins ++ left)
  else .ok (accumulator, 0, notAddedCoins)

/-- The value of the checkpoint ten blocks above the one where the loop stops. -/
def readCheckpoint (den : CoinDenomination) (height : Nat) : Except WitnessFailure CBigNum := do
  let some pindexSpend := ctx.pindexAt (height + 10) | throw .nullIndex
  match getAccumulatorValueFromDB ctx.store pindexSpend.nAccumulatorCheckpoint den with
  | none => throw (.exception "failed to find checksum in database for accumulator")
  | some bnAccValue =>
      -- a pointer is thrown, which the handlers do not catch
      if bnAccValue = 0 then
        throw (.exception "failed to find checksum in database for accumulator")
      return bnAccValue

/-- What the loop for a filter changes. -/
structure FilteredScan where
  accumulator : Accumulator
  witnessAccumulator : Accumulator
  nMintsAdded : Nat
  ret : List CBigNum
  deriving DecidableEq, Repr

/-- A block is added in the loop for a filter. -/
def addFilteredBlock (den : CoinDenomination) (contains : List UInt8 → Bool) (height : Nat)
    (scan : FilteredScan) : Except WitnessFailure FilteredScan := do
  let (witnessAccumulator, nMintsAdded, ret) ←
    ctx.addFilteredMints den contains height true scan.witnessAccumulator scan.ret
  return { scan with witnessAccumulator, nMintsAdded := scan.nMintsAdded + nMintsAdded, ret }

/-- The end of the loop for a filter. -/
def readFilteredStop (den : CoinDenomination) (height : Nat) (scan : FilteredScan) :
    Except WitnessFailure FilteredScan := do
  let bnAccValue ← ctx.readCheckpoint den height
  return { scan with accumulator := { scan.accumulator with value := bnAccValue } }

/-- A block is added in the loop for a coin. -/
def addCoinBlock (coin : PublicCoin) (nHeightMintAdded height : Nat) (scan : WitnessScan) :
    Except WitnessFailure WitnessScan := do
  let (witnessAccumulator, nMintsAdded) ←
    ctx.addBlockMintsToAccumulator coin nHeightMintAdded height true scan.witnessAccumulator
  return { scan with witnessAccumulator, nMintsAdded := scan.nMintsAdded + nMintsAdded }

/-- A round of `AccumulateRange`. -/
def rangeBody (nHeightEnd : Int) (scan : BlockScan CoinWitnessData) :
    BlockScan CoinWitnessData ⊕ (CoinWitnessData × Except WitnessFailure Unit) :=
  match scan.pindex with
  | none => .inr (scan.data, .ok ())
  | some height =>
      if (height : Int) ≤ nHeightEnd then
        match ctx.addBlockMintsToAccumulator scan.data.coin scan.data.nHeightMintAdded height true
            scan.data.pAccumulator with
        | .error failure => .inr (scan.data, .error failure)
        | .ok (pAccumulator, nMintsAdded) =>
            let data := { scan.data with
              pAccumulator, nMintsAdded := scan.data.nMintsAdded + nMintsAdded
              nHeightAccEnd := height }
            if (height : Int) = ctx.params.nBlockDoubleAccumulated + 10 ∧
                scan.fDoubleCounted = false then
              .inl ⟨if ctx.params.nBlockDoubleAccumulated < 0 then none
                else ctx.blockAt ctx.params.nBlockDoubleAccumulated.toNat, true, data⟩
            else .inl ⟨ctx.blockAt (height + 1), scan.fDoubleCounted, data⟩
      else .inr (scan.data, .ok ())

variable {ctx} {coin : PublicCoin} {nHeightMintAdded : Nat} {nHeightStop : Int}

/-- The loop for a coin is the one loop with the blocks of that coin. -/
theorem accumulateUntil_eq_scanBlocks (fDoubleCounted : Bool) (height : Nat) (scan : WitnessScan) :
    ctx.accumulateUntil coin nHeightMintAdded nHeightStop fDoubleCounted height scan =
      ctx.scanBlocks (ctx.addCoinBlock coin nHeightMintAdded) (ctx.readStopValue coin) nHeightStop
        fDoubleCounted height scan := by
  induction fDoubleCounted, height, scan using
    scanBlocks.induct ctx (ctx.addCoinBlock coin nHeightMintAdded) nHeightStop with
  | case1 fDoubleCounted height scan inside stops invalid =>
      rw [accumulateUntil, scanBlocks, if_pos inside, if_pos stops, if_pos inside, if_pos stops,
        if_pos invalid, readStopValue, if_pos invalid]
      rfl
  | case2 fDoubleCounted height scan inside stops valid =>
      rw [accumulateUntil, scanBlocks, if_pos inside, if_pos stops, if_pos inside, if_pos stops,
        if_neg valid]
  | case3 fDoubleCounted height scan inside goes failure fails =>
      rw [accumulateUntil, scanBlocks, if_pos inside, if_neg goes, if_pos inside, if_neg goes,
        fails]
      unfold addCoinBlock at fails
      cases added : ctx.addBlockMintsToAccumulator coin nHeightMintAdded height true
          scan.witnessAccumulator with
      | error other =>
          rw [added] at fails
          cases fails
          rfl
      | ok result =>
          rw [added] at fails
          cases fails
  | case4 fDoubleCounted height scan inside goes next adds again ih =>
      rw [accumulateUntil, scanBlocks, if_pos inside, if_neg goes, if_pos inside, if_neg goes, adds]
      unfold addCoinBlock at adds
      cases added : ctx.addBlockMintsToAccumulator coin nHeightMintAdded height true
          scan.witnessAccumulator with
      | error other =>
          rw [added] at adds
          cases adds
      | ok result =>
          rw [added] at adds
          cases adds
          dsimp only
          rw [if_pos again, if_pos again]
          exact ih
  | case5 fDoubleCounted height scan inside goes next adds once ih =>
      rw [accumulateUntil, scanBlocks, if_pos inside, if_neg goes, if_pos inside, if_neg goes, adds]
      unfold addCoinBlock at adds
      cases added : ctx.addBlockMintsToAccumulator coin nHeightMintAdded height true
          scan.witnessAccumulator with
      | error other =>
          rw [added] at adds
          cases adds
      | ok result =>
          rw [added] at adds
          cases adds
          dsimp only
          rw [if_neg once, if_neg once]
          exact ih
  | case6 fDoubleCounted height scan outside =>
      rw [accumulateUntil, scanBlocks, if_neg outside, if_neg outside]

theorem returns_rangeBody_none (nHeightEnd : Int) (fDoubleCounted : Bool)
    (data : CoinWitnessData) :
    Returns (ctx.rangeBody nHeightEnd) ⟨none, fDoubleCounted, data⟩ (data, .ok ()) :=
  .leave rfl

/-- **`AccumulateRange` returns** what the function says. -/
theorem returns_accumulateFrom (nHeightEnd : Int) (fDoubleCounted : Bool) (height : Nat)
    (data : CoinWitnessData) :
    Returns (ctx.rangeBody nHeightEnd) ⟨ctx.blockAt height, fDoubleCounted, data⟩
      (ctx.accumulateFrom nHeightEnd fDoubleCounted height data) := by
  induction fDoubleCounted, height, data using accumulateFrom.induct ctx nHeightEnd with
  | case1 fDoubleCounted height data inside failure fails =>
      rw [accumulateFrom, if_pos inside, blockAt, if_pos inside.1]
      apply Returns.leave
      unfold rangeBody
      dsimp only
      rw [if_pos inside.2, fails]
  | case2 fDoubleCounted height data inside pAccumulator nMintsAdded added again low =>
      rw [accumulateFrom, if_pos inside, blockAt, if_pos inside.1, added]
      dsimp only
      rw [if_pos again, if_pos low]
      refine Returns.round ?_ (returns_rangeBody_none nHeightEnd true _)
      unfold rangeBody
      dsimp only
      rw [if_pos inside.2, added]
      dsimp only
      rw [if_pos again, if_pos low]
  | case3 fDoubleCounted height data inside pAccumulator nMintsAdded added next again high ih =>
      rw [accumulateFrom, if_pos inside, blockAt, if_pos inside.1, added]
      dsimp only
      rw [if_pos again, if_neg high]
      refine Returns.round ?_ ih
      unfold rangeBody
      dsimp only
      rw [if_pos inside.2, added]
      dsimp only
      rw [if_pos again, if_neg high]
  | case4 fDoubleCounted height data inside pAccumulator nMintsAdded added next once ih =>
      rw [accumulateFrom, if_pos inside, blockAt, if_pos inside.1, added]
      dsimp only
      rw [if_neg once]
      refine Returns.round ?_ ih
      unfold rangeBody
      dsimp only
      rw [if_pos inside.2, added]
      dsimp only
      rw [if_neg once]
  | case5 fDoubleCounted height data outside =>
      rw [accumulateFrom, if_neg outside, blockAt]
      apply Returns.leave
      unfold rangeBody
      by_cases inChain : height < ctx.chainActive.length
      · rw [if_pos inChain]
        dsimp only
        rw [if_neg fun low => outside ⟨inChain, low⟩]
      · rw [if_neg inChain]

/-! ## When the loops end -/

/-- `GetPubcoinFromBlock` comes back. -/
theorem getPubcoinFromBlock_ne_endless (height : Nat) :
    ctx.getPubcoinFromBlock height ≠ .error .endless := by
  unfold getPubcoinFromBlock
  cases ctx.chainActive[height]?.bind ChainEntry.block with
  | none => simp [throw, throwThe, MonadExceptOf.throw]
  | some block =>
      cases listed : blockToPubcoinList ctx.validOutPoint true block with
      | none => simp [listed, throw, throwThe, MonadExceptOf.throw]
      | some listPubcoins => simp [listed, pure, Except.pure]

theorem addCoinBlock_ne_endless (height : Nat) (scan : WitnessScan) :
    ctx.addCoinBlock coin nHeightMintAdded height scan ≠ .error .endless := by
  have reads := ctx.getPubcoinFromBlock_ne_endless height
  unfold addCoinBlock addBlockMintsToAccumulator
  split
  · cases read : ctx.getPubcoinFromBlock height with
    | error failure =>
        rw [read] at reads
        intro same
        cases same
        exact reads rfl
    | ok listPubcoins => exact nofun
  · exact nofun

theorem addFilteredBlock_ne_endless {den : CoinDenomination} {contains : List UInt8 → Bool}
    (height : Nat) (scan : FilteredScan) :
    ctx.addFilteredBlock den contains height scan ≠ .error .endless := by
  have reads := ctx.getPubcoinFromBlock_ne_endless height
  unfold addFilteredBlock addFilteredMints
  split
  · cases read : ctx.getPubcoinFromBlock height with
    | error failure =>
        rw [read] at reads
        intro same
        cases same
        exact reads rfl
    | ok listPubcoins => exact nofun
  · exact nofun

/-- A block is added if its mints can be read. -/
theorem exists_addCoinBlock_iff (height : Nat) (scan : WitnessScan) :
    (∃ next, ctx.addCoinBlock coin nHeightMintAdded height scan = .ok next) ↔
      ctx.ReadsMints coin.denomination height := by
  unfold addCoinBlock addBlockMintsToAccumulator ReadsMints
  split
  · rename_i listed
    rw [imp_iff_right listed]
    cases read : ctx.getPubcoinFromBlock height with
    | error failure => exact iff_of_false (by rintro ⟨next, went⟩; cases went) (by simp)
    | ok listPubcoins => exact iff_of_true ⟨_, rfl⟩ ⟨_, rfl⟩
  · rename_i unlisted
    exact iff_of_true ⟨_, rfl⟩ fun listed => absurd listed unlisted

theorem exists_addFilteredBlock_iff {den : CoinDenomination} {contains : List UInt8 → Bool}
    (height : Nat) (scan : FilteredScan) :
    (∃ next, ctx.addFilteredBlock den contains height scan = .ok next) ↔
      ctx.ReadsMints den height := by
  unfold addFilteredBlock addFilteredMints ReadsMints
  split
  · rename_i listed
    rw [imp_iff_right listed]
    cases read : ctx.getPubcoinFromBlock height with
    | error failure => exact iff_of_false (by rintro ⟨next, went⟩; cases went) (by simp)
    | ok listPubcoins => exact iff_of_true ⟨_, rfl⟩ ⟨_, rfl⟩
  · rename_i unlisted
    exact iff_of_true ⟨_, rfl⟩ fun listed => absurd listed unlisted

/-- A checkpoint that cannot be read throws, or has no block. -/
theorem readCheckpoint_cases (den : CoinDenomination) (height : Nat) :
    (∃ bnAccValue, ctx.readCheckpoint den height = .ok bnAccValue) ∨
      ctx.readCheckpoint den height = .error .nullIndex ∨
      ∃ text, ctx.readCheckpoint den height = .error (.exception text) := by
  unfold readCheckpoint
  cases ctx.pindexAt (height + 10) with
  | none => exact Or.inr (Or.inl rfl)
  | some pindexSpend =>
      dsimp only
      cases getAccumulatorValueFromDB ctx.store pindexSpend.nAccumulatorCheckpoint den with
      | none => exact Or.inr (Or.inr ⟨_, rfl⟩)
      | some bnAccValue =>
          dsimp only
          by_cases zero : bnAccValue = 0
          · rw [if_pos zero]
            exact Or.inr (Or.inr ⟨_, rfl⟩)
          · rw [if_neg zero]
            exact Or.inl ⟨bnAccValue, rfl⟩

/-- What is read at the end of a walk for a coin. -/
theorem readStopValue_eq_map {stop : Nat} (scan : WitnessScan)
    (valid : invalidCheckpointRange ctx.params stop = false) :
    ctx.readStopValue coin stop scan = (ctx.readCheckpoint coin.denomination stop).map
      fun bnAccValue =>
        { scan with accumulator := { scan.accumulator with value := bnAccValue } } := by
  unfold readStopValue readCheckpoint
  rw [valid, if_neg Bool.false_ne_true]
  cases ctx.pindexAt (stop + 10) with
  | none => rfl
  | some pindexSpend =>
      dsimp only
      cases getAccumulatorValueFromDB ctx.store pindexSpend.nAccumulatorCheckpoint
          coin.denomination with
      | none => rfl
      | some bnAccValue =>
          dsimp only
          by_cases zero : bnAccValue = 0
          · simp [zero, bind, Except.bind, throw, throwThe, MonadExceptOf.throw, Except.map]
          · simp [zero, pure, Except.pure, Except.map]

theorem readFilteredStop_ne_endless {den : CoinDenomination} (height : Nat) (scan : FilteredScan) :
    ctx.readFilteredStop den height scan ≠ .error .endless := by
  unfold readFilteredStop
  obtain ⟨bnAccValue, read⟩ | absent | ⟨text, thrown⟩ := ctx.readCheckpoint_cases den height
  · rw [read]
    exact nofun
  · rw [absent]
    exact nofun
  · rw [thrown]
    exact nofun

theorem readStopValue_ne_endless (height : Nat) (scan : WitnessScan)
    (valid : invalidCheckpointRange ctx.params height = false) :
    ctx.readStopValue coin height scan ≠ .error .endless := by
  rw [readStopValue_eq_map scan valid]
  obtain ⟨bnAccValue, read⟩ | absent | ⟨text, thrown⟩ :=
    ctx.readCheckpoint_cases coin.denomination height
  · rw [read]
    exact nofun
  · rw [absent]
    exact nofun
  · rw [thrown]
    exact nofun

variable (ctx)

/-- **The three loops end**: that for a filter, that for a coin, and that of
`AccumulateRange`. -/
structure LoopsEnd (den : CoinDenomination) (contains : List UInt8 → Bool) (coin : PublicCoin)
    (nHeightMintAdded start : Nat) (nHeightStop : Int) (filtered : FilteredScan)
    (scan : WitnessScan) (data : CoinWitnessData) : Prop where
  filter : Terminates (ctx.blocksBody (ctx.addFilteredBlock den contains)
    (ctx.readFilteredStop den) nHeightStop) ⟨ctx.blockAt start, false, filtered⟩
  coin : Terminates (ctx.blocksBody (ctx.addCoinBlock coin nHeightMintAdded)
    (ctx.readStopValue coin) nHeightStop) ⟨ctx.blockAt start, false, scan⟩
  range : Terminates (ctx.rangeBody nHeightStop) ⟨ctx.blockAt start, false, data⟩

/-- **The walk comes to a block in the invalid range** at or above the stop height. -/
structure Stalls (den : CoinDenomination) (start : Nat) (nHeightStop : Int) : Prop where
  inChain : max start nHeightStop.toNat < ctx.chainActive.length
  invalid : invalidCheckpointRange ctx.params (max start nHeightStop.toNat : Nat) = true
  /-- No block before it throws. -/
  reads : ∀ height ∈ ctx.walkedHeights nHeightStop start, ctx.ReadsMints den height

/-- **When the loops end.** From every block and for every stop height, they do exactly if the
walk does not come to a block in the invalid range. -/
theorem loopsEnd_iff (den : CoinDenomination) (contains : List UInt8 → Bool) (coin : PublicCoin)
    (nHeightMintAdded start : Nat) (nHeightStop : Int) (filtered : FilteredScan)
    (scan : WitnessScan) (data : CoinWitnessData) :
    ctx.LoopsEnd den contains coin nHeightMintAdded start nHeightStop filtered scan data ↔
      ¬ ctx.Stalls den start nHeightStop ∧ ¬ ctx.Stalls coin.denomination start nHeightStop := by
  have stalls_iff : ∀ other : CoinDenomination, ctx.Stalls other start nHeightStop ↔
      max start nHeightStop.toNat < ctx.chainActive.length ∧
        invalidCheckpointRange ctx.params (max start nHeightStop.toNat : Nat) = true ∧
        ∀ height ∈ ctx.walkedHeights nHeightStop start, ctx.ReadsMints other height :=
    fun other => ⟨fun ⟨a, b, c⟩ => ⟨a, b, c⟩, fun ⟨a, b, c⟩ => ⟨a, b, c⟩⟩
  have forFilter : Terminates (ctx.blocksBody (ctx.addFilteredBlock den contains)
      (ctx.readFilteredStop den) nHeightStop) ⟨ctx.blockAt start, false, filtered⟩ ↔
      ¬ ctx.Stalls den start nHeightStop := by
    rw [terminates_iff_ne_endless addFilteredBlock_ne_endless fun height scan _ =>
      readFilteredStop_ne_endless height scan, stalls_iff, ne_eq,
      scanBlocks_eq_endless_iff addFilteredBlock_ne_endless (fun height scan _ =>
        readFilteredStop_ne_endless height scan) exists_addFilteredBlock_iff]
  have forCoin : Terminates (ctx.blocksBody (ctx.addCoinBlock coin nHeightMintAdded)
      (ctx.readStopValue coin) nHeightStop) ⟨ctx.blockAt start, false, scan⟩ ↔
      ¬ ctx.Stalls coin.denomination start nHeightStop := by
    rw [terminates_iff_ne_endless addCoinBlock_ne_endless readStopValue_ne_endless, stalls_iff,
      ne_eq, scanBlocks_eq_endless_iff addCoinBlock_ne_endless readStopValue_ne_endless
        exists_addCoinBlock_iff]
  constructor
  · exact fun ends => ⟨forFilter.mp ends.filter, forCoin.mp ends.coin⟩
  · exact fun ⟨first, second⟩ => ⟨forFilter.mpr first, forCoin.mpr second,
      _, returns_accumulateFrom nHeightStop false start data⟩

end WitnessContext

/-! ## A stop height in the invalid range -/

/-- The main network with some blocks, none of which is on disk. -/
def mainContext (length : Nat) : WitnessContext :=
  witnessContext { checkpointContext [] with
    params := CChainParams.main, chainActive := List.replicate length ⟨0, none⟩ }

theorem length_mainContext (length : Nat) : (mainContext length).chainActive.length = length :=
  List.length_replicate

/-- A walk that begins and stops at a block of the invalid range. -/
theorem not_terminates_mainContext {σ : Type}
    (addBlock readStop : Nat → σ → Except WitnessFailure σ)
    {length height : Nat} (inside : height < length)
    (invalid : invalidCheckpointRange CChainParams.main height = true) (data : σ) :
    ¬ Terminates ((mainContext length).blocksBody addBlock readStop height)
      ⟨(mainContext length).blockAt height, false, data⟩ := by
  apply not_terminates_of_repeats
  rw [WitnessContext.blockAt, length_mainContext, if_pos inside]
  unfold WitnessContext.blocksBody
  dsimp only
  rw [if_pos le_rfl]
  exact if_pos invalid

/-- The checkpoint of a stop height between 891730 and 908000. -/
theorem not_loopsEnd_mainContext :
    ¬ (mainContext 910000).LoopsEnd .one (fun _ => false) ⟨7, .one⟩ 900000 900000 (900000 : Nat)
      ⟨Accumulator.fresh Libzerocoin.plain false .one,
        Accumulator.fresh Libzerocoin.plain false .one, 0, []⟩
      ⟨Accumulator.fresh Libzerocoin.plain false .one,
        Accumulator.fresh Libzerocoin.plain false .one, 0⟩
      (CoinWitnessData.ofMint Libzerocoin.plain ⟨7, .one⟩ 900000) := by
  intro ends
  have invalid : invalidCheckpointRange CChainParams.main (900000 : Nat) = true := by
    decide +kernel
  exact not_terminates_mainContext _ _ (by omega) invalid _ ends.filter

end GiantCore
