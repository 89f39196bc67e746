import GiantCore.Zerocoin.WitnessTruth

/-! # The witnesses of light wallets

`CalculateAccumulatorWitnessFor` answers a request of a peer. Where the request reaches too far
it computes a lower stop height, but in a variable of an inner scope, so that the walk goes on up
to two checkpoints below the tip. The mints of the walk are counted in the loop, and the count
that is returned has only those before it.
-/

namespace GiantCore

open CoinDenomination

/-- What is known before the loop. -/
structure LightStart where
  pindex : Option Nat
  accumulator : Accumulator
  witness : AccumulatorWitness
  deriving DecidableEq, Repr

/-- What a request that succeeds sets. -/
structure LightWitness where
  accumulator : Accumulator
  witness : AccumulatorWitness
  nMintsAdded : Int
  ret : List CBigNum
  deriving DecidableEq, Repr

/-- `heightStop`, once it is set, and how the function ends. -/
structure LightOutcome where
  heightStop : Option Int
  result : Except WitnessFailure LightWitness

namespace WitnessContext

variable (ctx : WitnessContext)

/-! ## The function -/

/-- `CalculateAccumulatorWitnessFor` up to the stop height. -/
def lightStart (startHeight : Int) (den : CoinDenomination) (accumulator : Accumulator)
    (witness : AccumulatorWitness) : Except WitnessFailure LightStart := do
  if !ctx.lockMethod then throw (.error "could not get lock on cs_main")
  let nHeightCheckpoint := startHeight + (10 - startHeight.tmod 10)
  let (nHeightCheckpoint, accumulator, witness) ←
    match ← ctx.getAccumulatorValue nHeightCheckpoint den with
    | none => pure (nHeightCheckpoint, accumulator, witness)
    | some (nHeightCheckpoint, bnAccValue) =>
        let accumulator := { accumulator with value := bnAccValue }
        pure (nHeightCheckpoint, accumulator, witness.resetValue accumulator ⟨0, den⟩)
  return {
    pindex := if nHeightCheckpoint < 10 then none
      else ctx.blockAt (nHeightCheckpoint - 10).toNat
    accumulator
    witness }

/-- The loop for a filter, from a block or from none. -/
def scanFiltered (den : CoinDenomination) (contains : List UInt8 → Bool) (nHeightStop : Int)
    (pindex : Option Nat) (scan : FilteredScan) : Except WitnessFailure FilteredScan :=
  match pindex with
  | none => .ok scan
  | some height => ctx.scanBlocks (ctx.addFilteredBlock den contains) (ctx.readFilteredStop den)
      nHeightStop false height scan

/-- The variables of the loop at its start, on top of the witness. -/
def filteredStart (den : CoinDenomination) (start : LightStart) : FilteredScan where
  accumulator := start.accumulator
  witnessAccumulator := Accumulator.ofValue ctx.lib false den start.witness.witness.value
  nMintsAdded := 0
  ret := []

/-- `CalculateAccumulatorWitnessFor`. The stop height for `maxCalulationRange` is assigned to a
variable of an inner scope, and nothing reads it. -/
def calculateAccumulatorWitnessFor (startHeight _maxCalulationRange : Int)
    (den : CoinDenomination) (contains : List UInt8 → Bool) (accumulator : Accumulator)
    (witness : AccumulatorWitness) : LightOutcome :=
  match ctx.lightStart startHeight den accumulator witness with
  | .error failure => ⟨none, .error failure⟩
  | .ok start =>
      let nHeightStop := ctx.deepHeight
      { heightStop := some nHeightStop
        result := do
          let scan ← ctx.scanFiltered den contains nHeightStop start.pindex
            (ctx.filteredStart den start)
          if (scan.nMintsAdded : Int) < ctx.params.nRequiredAccumulation then
            throw (.exception "Less than the required mints added, unable to create spend")
          let witness := start.witness.resetValue scan.witnessAccumulator ⟨0, den⟩
          let nMintsAdded : Int := 0
          let accumulated ← ctx.computeAccumulatedCoins startHeight den
          return ⟨scan.accumulator, witness, nMintsAdded + accumulated, scan.ret⟩ }

/-! ## The blocks of the walk -/

section

variable {σ : Type} (addBlock : Nat → σ → Except WitnessFailure σ) (nHeightStop : Int)

/-- The heights of the blocks that the loop adds, in the order of its rounds. -/
def addedHeights (fDoubleCounted : Bool) (height : Nat) (data : σ) : List Nat :=
  if height < ctx.chainActive.length then
    if nHeightStop ≤ height then []
    else match addBlock height data with
      | .error _ => []
      | .ok data => height ::
          if height = 1050010 ∧ fDoubleCounted = false then addedHeights true 1050000 data
          else addedHeights fDoubleCounted (height + 1) data
  else []
termination_by ((!fDoubleCounted).toNat, ctx.chainActive.length - height)
decreasing_by
  · rename_i again
    rw [again.2]
    exact Prod.Lex.left _ _ (by decide)
  · exact Prod.Lex.right _ (by omega)

variable {ctx addBlock nHeightStop} {fDoubleCounted : Bool} {start : Nat}
  {readable : Nat → Prop} [DecidablePred readable]

theorem addedHeights_of_done
    (done : min nHeightStop.toNat ctx.chainActive.length ≤ start) (data : σ) :
    ctx.addedHeights addBlock nHeightStop fDoubleCounted start data = [] := by
  rw [addedHeights]
  split
  · rw [if_pos (by omega)]
  · rfl

theorem addedHeights_of_lt (fDoubleCounted : Bool)
    (reaches : ∀ height data, (∃ next, addBlock height data = .ok next) ↔ readable height)
    (goes : start < min nHeightStop.toNat ctx.chainActive.length) (data : σ) :
    ∃ next, ctx.addedHeights addBlock nHeightStop fDoubleCounted start data =
      if readable start then start ::
        (if start = 1050010 ∧ fDoubleCounted = false then
          ctx.addedHeights addBlock nHeightStop true 1050000 next
        else ctx.addedHeights addBlock nHeightStop fDoubleCounted (start + 1) next)
      else [] := by
  rw [addedHeights, if_pos (by omega), if_neg (by omega)]
  have here := reaches start data
  cases added : addBlock start data with
  | error failure =>
      rw [added] at here
      have unreadable : ¬ readable start := by
        rw [← here]
        simp
      exact ⟨data, (if_neg unreadable).symm⟩
  | ok next =>
      rw [added] at here
      exact ⟨next, (if_pos (here.mp ⟨next, rfl⟩)).symm⟩

theorem addedHeights_true
    (reaches : ∀ height data, (∃ next, addBlock height data = .ok next) ↔ readable height)
    (start : Nat) (data : σ) :
    ctx.addedHeights addBlock nHeightStop true start data =
      (List.range' start (min nHeightStop.toNat ctx.chainActive.length - start)).takeWhile
        fun height => decide (readable height) := by
  generalize left : min nHeightStop.toNat ctx.chainActive.length - start = rounds
  induction rounds generalizing start data with
  | zero =>
      rw [addedHeights_of_done (by omega)]
      rfl
  | succ rounds ih =>
      obtain ⟨next, step⟩ := addedHeights_of_lt true reaches
        (show start < min nHeightStop.toNat ctx.chainActive.length by omega) data
      rw [step, List.range'_succ, List.takeWhile_cons,
        if_neg (show ¬ (start = 1050010 ∧ true = false) by simp), ih (start + 1) next (by omega)]
      simp

/-- **The blocks that are added** are those of the walk up to the first that cannot be read. -/
theorem addedHeights_eq
    (reaches : ∀ height data, (∃ next, addBlock height data = .ok next) ↔ readable height)
    (start : Nat) (data : σ) :
    ctx.addedHeights addBlock nHeightStop false start data =
      (ctx.walkedHeights nHeightStop start).takeWhile fun height => decide (readable height) := by
  unfold walkedHeights
  generalize left : min nHeightStop.toNat ctx.chainActive.length - start = rounds
  induction rounds generalizing start data with
  | zero =>
      rw [addedHeights_of_done (by omega), scannedHeights_of_le (by omega)]
      rfl
  | succ rounds ih =>
      obtain ⟨next, step⟩ := addedHeights_of_lt false reaches
        (show start < min nHeightStop.toNat ctx.chainActive.length by omega) data
      rw [step]
      by_cases double : start = 1050000 + 10
      · rw [if_pos (show start = 1050010 ∧ false = false from ⟨by omega, rfl⟩),
          addedHeights_true reaches, double, scannedHeights_double (by omega), List.takeWhile_cons]
        simp
      · rw [if_neg (show ¬ (start = 1050010 ∧ false = false) by omega),
          scannedHeights_step (by omega) double, List.takeWhile_cons,
          ih (start + 1) next (by omega)]
        simp

end

/-! ## The mints of the walk -/

/-- The mints of a denomination in a block. -/
def blockMints (den : CoinDenomination) (height : Nat) : List CBigNum :=
  if den ∈ ctx.vMintDenominationsInBlock height then
    match ctx.getPubcoinFromBlock height with
    | .error _ => []
    | .ok listPubcoins => coinsOf den listPubcoins
  else []

/-- The mints of a denomination in the blocks of the walk. -/
def walkMints (den : CoinDenomination) (nHeightStop : Int) (pindex : Option Nat) : List CBigNum :=
  match pindex with
  | none => []
  | some height => (ctx.walkedHeights nHeightStop height).flatMap (ctx.blockMints den)

/-- The mints that are folded into the witness. -/
def foldedFor (den : CoinDenomination) (contains : List UInt8 → Bool) (nHeightStop : Int)
    (pindex : Option Nat) : List CBigNum :=
  (ctx.walkMints den nHeightStop pindex).filter fun value => !contains value.getvch

/-- The mints that the filter has. -/
def leftOut (den : CoinDenomination) (contains : List UInt8 → Bool) (nHeightStop : Int)
    (pindex : Option Nat) : List CBigNum :=
  (ctx.walkMints den nHeightStop pindex).filter fun value => contains value.getvch

/-- The loop's variables after some mints. -/
def FilteredScan.fold (lib : Libzerocoin) (contains : List UInt8 → Bool) (scan : FilteredScan)
    (mints : List CBigNum) : FilteredScan :=
  let added := mints.filter fun value => !contains value.getvch
  { scan with
    witnessAccumulator := added.foldl (Accumulator.increment lib) scan.witnessAccumulator
    nMintsAdded := scan.nMintsAdded + added.length
    ret := scan.ret ++ mints.filter fun value => contains value.getvch }

variable {ctx} {den : CoinDenomination} {contains : List UInt8 → Bool}

theorem addFilteredBlock_eq_ok {height : Nat} (reads : ctx.ReadsMints den height)
    (scan : FilteredScan) :
    ctx.addFilteredBlock den contains height scan =
      .ok (scan.fold ctx.lib contains (ctx.blockMints den height)) := by
  unfold addFilteredBlock addFilteredMints blockMints
  split
  · rename_i listed
    obtain ⟨listPubcoins, read⟩ := reads listed
    rw [read]
    simp [FilteredScan.fold, List.partition_eq_filter_filter, bind, Except.bind, pure, Except.pure,
      Function.comp_def]
  · simp [FilteredScan.fold, bind, Except.bind, pure, Except.pure]

theorem foldlM_addFilteredBlock (heights : List Nat) (scan : FilteredScan)
    (reads : ∀ height ∈ heights, ctx.ReadsMints den height) :
    heights.foldlM (fun scan height => ctx.addFilteredBlock den contains height scan) scan =
      .ok (scan.fold ctx.lib contains (heights.flatMap (ctx.blockMints den))) := by
  induction heights generalizing scan with
  | nil => simp [FilteredScan.fold, pure, Except.pure]
  | cons height rest ih =>
      rw [List.forall_mem_cons] at reads
      rw [List.foldlM_cons, addFilteredBlock_eq_ok reads.1]
      show List.foldlM _ _ rest = _
      rw [ih _ reads.2]
      simp [FilteredScan.fold, List.foldl_append, Nat.add_assoc]

/-- A walk that can be read. -/
theorem scanFiltered_eq_map {nHeightStop : Int} {pindex : Option Nat}
    (reads : ctx.ReadsWalk den nHeightStop pindex) (scan : FilteredScan) :
    ctx.scanFiltered den contains nHeightStop pindex scan =
      (ctx.comparedWith den nHeightStop pindex scan.accumulator).map fun compared =>
        { scan.fold ctx.lib contains (ctx.walkMints den nHeightStop pindex) with
          accumulator := compared } := by
  unfold scanFiltered comparedWith walkMints
  cases pindex with
  | none => simp [FilteredScan.fold, Except.map]
  | some height =>
      dsimp only
      rw [scanBlocks_eq, foldlM_addFilteredBlock _ _ (reads height rfl)]
      show ctx.finishWalk _ _ _ = _
      unfold finishWalk
      split
      · split
        · rfl
        · unfold readFilteredStop
          cases ctx.readCheckpoint den (max height nHeightStop.toNat) <;> rfl
      · rfl

/-- A walk that is read to its end. -/
theorem readsWalk_of_scanFiltered {nHeightStop : Int} {pindex : Option Nat}
    {scan last : FilteredScan}
    (scanned : ctx.scanFiltered den contains nHeightStop pindex scan = .ok last) :
    ctx.ReadsWalk den nHeightStop pindex := by
  intro height found
  cases found
  unfold scanFiltered at scanned
  dsimp only at scanned
  rw [scanBlocks_eq] at scanned
  obtain ⟨between, walked, -⟩ := Foundation.Checks.bind_eq_ok.mp scanned
  exact (exists_foldlM_eq_ok_iff exists_addFilteredBlock_iff _ _).mp ⟨between, walked⟩

/-! ## The limit and the count -/

variable (ctx)

/-- **The work is bounded and counted.** -/
structure BoundedAndCounted (startHeight maxCalulationRange : Int) (den : CoinDenomination)
    (contains : List UInt8 → Bool) (accumulator : Accumulator) (witness : AccumulatorWitness) :
    Prop where
  bounded : ∀ start, ctx.lightStart startHeight den accumulator witness = .ok start →
    ∀ height ∈ start.pindex, ∀ added ∈ ctx.addedHeights (ctx.addFilteredBlock den contains)
      ctx.deepHeight false height (ctx.filteredStart den start),
      (added : Int) ≤ startHeight + maxCalulationRange
  /-- The walk stops at the block of `heightStop`, if it gets there. -/
  stopped : ∀ start, ctx.lightStart startHeight den accumulator witness = .ok start →
    ∀ height ∈ start.pindex, ctx.ReadsWalk den ctx.deepHeight start.pindex →
      max height ctx.deepHeight.toNat < ctx.chainActive.length →
      (ctx.calculateAccumulatorWitnessFor startHeight maxCalulationRange den contains accumulator
        witness).heightStop = some ((max height ctx.deepHeight.toNat : Nat) : Int)
  counted : ∀ start light, ctx.lightStart startHeight den accumulator witness = .ok start →
    (ctx.calculateAccumulatorWitnessFor startHeight maxCalulationRange den contains accumulator
      witness).result = .ok light →
    ∃ accumulated, ctx.computeAccumulatedCoins startHeight den = .ok accumulated ∧
      light.nMintsAdded =
        (ctx.foldedFor den contains ctx.deepHeight start.pindex).length + accumulated
  listed : ∀ start light, ctx.lightStart startHeight den accumulator witness = .ok start →
    (ctx.calculateAccumulatorWitnessFor startHeight maxCalulationRange den contains accumulator
      witness).result = .ok light →
    light.ret = ctx.leftOut den contains ctx.deepHeight start.pindex

/-- A request with enough mints, a checkpoint, and a count of the mints before. -/
structure Answers (startHeight : Int) (den : CoinDenomination) (contains : List UInt8 → Bool)
    (start : LightStart) : Prop where
  reads : ctx.ReadsWalk den ctx.deepHeight start.pindex
  compared : ∃ compared, ctx.comparedWith den ctx.deepHeight start.pindex start.accumulator =
    .ok compared
  enough : ctx.params.nRequiredAccumulation ≤
    (ctx.foldedFor den contains ctx.deepHeight start.pindex).length
  counts : ∃ accumulated, ctx.computeAccumulatedCoins startHeight den = .ok accumulated

/-- **What has to be so of a request**: no block of the walk that can be read is too high, the
walk does not begin above the stop height, and it is not answered. -/
structure KeepsLimit (startHeight maxCalulationRange : Int) (den : CoinDenomination)
    (contains : List UInt8 → Bool) (start : LightStart) : Prop where
  low : ∀ height ∈ start.pindex, ∀ walked ∈ (ctx.walkedHeights ctx.deepHeight height).takeWhile
    (fun walked => decide (ctx.ReadsMints den walked)),
    (walked : Int) ≤ startHeight + maxCalulationRange
  begins : ∀ height ∈ start.pindex, ctx.ReadsWalk den ctx.deepHeight start.pindex →
    max height ctx.deepHeight.toNat < ctx.chainActive.length → (height : Int) ≤ ctx.deepHeight
  unanswered : ¬ ctx.Answers startHeight den contains start

variable {ctx} {startHeight maxCalulationRange : Int} {accumulator : Accumulator}
  {witness : AccumulatorWitness} {start : LightStart}

/-- **A request that succeeds** has folded enough mints, and counts only those before. -/
theorem calculateAccumulatorWitnessFor_eq_ok
    (started : ctx.lightStart startHeight den accumulator witness = .ok start)
    {light : LightWitness}
    (succeeds : (ctx.calculateAccumulatorWitnessFor startHeight maxCalulationRange den contains
      accumulator witness).result = .ok light) :
    ctx.Answers startHeight den contains start ∧
      light.ret = ctx.leftOut den contains ctx.deepHeight start.pindex ∧
      ∃ accumulated, ctx.computeAccumulatedCoins startHeight den = .ok accumulated ∧
        light.nMintsAdded = accumulated := by
  unfold calculateAccumulatorWitnessFor at succeeds
  rw [started] at succeeds
  dsimp only at succeeds
  obtain ⟨scan, scanned, rest⟩ := Foundation.Checks.bind_eq_ok.mp succeeds
  have reads := readsWalk_of_scanFiltered scanned
  rw [scanFiltered_eq_map reads] at scanned
  cases ends : ctx.comparedWith den ctx.deepHeight start.pindex
      (ctx.filteredStart den start).accumulator with
  | error failure =>
      rw [ends] at scanned
      cases scanned
  | ok compared =>
      rw [ends] at scanned
      cases scanned
      split at rest
      · cases rest
      · rename_i enough
        obtain ⟨accumulated, counts, made⟩ := Foundation.Checks.bind_eq_ok.mp rest
        cases made
        refine ⟨⟨reads, ⟨compared, ends⟩, ?_, accumulated, counts⟩, ?_, accumulated, counts, ?_⟩
        · simpa [FilteredScan.fold, filteredStart, foldedFor] using enough
        · simp [FilteredScan.fold, filteredStart, leftOut]
        · simp

/-- A request that is answered succeeds. -/
theorem exists_calculateAccumulatorWitnessFor
    (started : ctx.lightStart startHeight den accumulator witness = .ok start)
    (answers : ctx.Answers startHeight den contains start) :
    ∃ light, (ctx.calculateAccumulatorWitnessFor startHeight maxCalulationRange den contains
      accumulator witness).result = .ok light := by
  obtain ⟨compared, ends⟩ := answers.compared
  obtain ⟨accumulated, counts⟩ := answers.counts
  unfold calculateAccumulatorWitnessFor
  rw [started]
  dsimp only
  rw [scanFiltered_eq_map answers.reads, show ctx.comparedWith den ctx.deepHeight start.pindex
    (ctx.filteredStart den start).accumulator = .ok compared from ends]
  have enough := answers.enough
  simp only [Except.map, bind, Except.bind, FilteredScan.fold, filteredStart, Nat.zero_add]
  rw [if_neg (by unfold foldedFor at enough; omega)]
  simp only [pure, Except.pure, counts]
  exact ⟨_, rfl⟩

/-- **When a request keeps its limit and its count.** Where at least one mint is required, it
does exactly if no block of its walk lies above the range, the walk does not begin above the stop
height, and the request is not answered. -/
theorem boundedAndCounted_iff (ctx : WitnessContext) (startHeight maxCalulationRange : Int)
    (den : CoinDenomination) (contains : List UInt8 → Bool) (accumulator : Accumulator)
    (witness : AccumulatorWitness) (required : 0 < ctx.params.nRequiredAccumulation) :
    ctx.BoundedAndCounted startHeight maxCalulationRange den contains accumulator witness ↔
      ∀ start, ctx.lightStart startHeight den accumulator witness = .ok start →
        ctx.KeepsLimit startHeight maxCalulationRange den contains start := by
  have heights : ∀ start height, ctx.addedHeights (ctx.addFilteredBlock den contains)
      ctx.deepHeight false height (ctx.filteredStart den start) =
        (ctx.walkedHeights ctx.deepHeight height).takeWhile
          fun walked => decide (ctx.ReadsMints den walked) :=
    fun start height => addedHeights_eq exists_addFilteredBlock_iff height _
  have stop : ∀ start, ctx.lightStart startHeight den accumulator witness = .ok start →
      (ctx.calculateAccumulatorWitnessFor startHeight maxCalulationRange den contains accumulator
        witness).heightStop = some ctx.deepHeight := by
    intro start started
    unfold calculateAccumulatorWitnessFor
    rw [started]
  constructor
  · intro property start started
    refine ⟨?_, ?_, ?_⟩
    · intro height found walked member
      rw [← heights start] at member
      exact property.bounded start started height found walked member
    · intro height found reads inChain
      have same := property.stopped start started height found reads inChain
      rw [stop start started, Option.some.injEq] at same
      omega
    · intro answers
      obtain ⟨light, succeeds⟩ : ∃ light, (ctx.calculateAccumulatorWitnessFor startHeight
          maxCalulationRange den contains accumulator witness).result = .ok light :=
        exists_calculateAccumulatorWitnessFor started answers
      obtain ⟨-, -, accumulated, counts, count⟩ :=
        calculateAccumulatorWitnessFor_eq_ok started succeeds
      obtain ⟨other, countsToo, sum⟩ := property.counted start light started succeeds
      rw [counts] at countsToo
      cases countsToo
      have enough := answers.enough
      omega
  · intro keeps
    refine ⟨?_, ?_, ?_, ?_⟩
    · intro start started height found added member
      rw [heights start] at member
      exact (keeps start started).low height found added member
    · intro start started height found reads inChain
      have low := (keeps start started).begins height found reads inChain
      rw [stop start started, Option.some.injEq]
      omega
    · intro start light started succeeds
      exact absurd (calculateAccumulatorWitnessFor_eq_ok started succeeds).1
        (keeps start started).unanswered
    · intro start light started succeeds
      exact (calculateAccumulatorWitnessFor_eq_ok started succeeds).2.1

end WitnessContext

/-! ## A request for five blocks -/

/-- A filter without coins. -/
def noFilter : List UInt8 → Bool := fun _ => false

theorem boundedAndCounted_mintedChain :
    (witnessContext (mintedChain [7])).BoundedAndCounted 40 5 .one noFilter
        (Accumulator.fresh Libzerocoin.plain false .one) freshWitness ↔
      ∀ start, (witnessContext (mintedChain [7])).lightStart 40 .one
          (Accumulator.fresh Libzerocoin.plain false .one) freshWitness = .ok start →
        (witnessContext (mintedChain [7])).KeepsLimit 40 5 .one noFilter start :=
  WitnessContext.boundedAndCounted_iff (witnessContext (mintedChain [7])) 40 5 .one noFilter _
    freshWitness (by decide)

/-- The request starts at the block 40, and the block 49 is accumulated. -/
theorem not_boundedAndCounted_mintedChain :
    ¬ (witnessContext (mintedChain [7])).BoundedAndCounted 40 5 .one noFilter
      (Accumulator.fresh Libzerocoin.plain false .one) freshWitness := by
  intro property
  have started : (witnessContext (mintedChain [7])).lightStart 40 .one
      (Accumulator.fresh Libzerocoin.plain false .one) freshWitness =
        .ok ⟨some 40, ⟨false, .one, foldCoins Libzerocoin.plain 961 [5]⟩,
          ⟨⟨false, .one, foldCoins Libzerocoin.plain 961 [5]⟩, ⟨0, .one⟩⟩⟩ := by
    decide +kernel
  have low := property.bounded _ started 40 rfl 49 (by
    rw [WitnessContext.addedHeights_eq WitnessContext.exists_addFilteredBlock_iff]
    decide +kernel)
  revert low
  decide

end GiantCore
