import GiantCore.Zerocoin.WitnessLoops

/-! # What the witness generation reports

`GenerateAccumulatorWitness` and the loop it calls each have a counter of the mints. The loop
throws where it counts too few, and nothing catches that exception. What the function compares
afterwards is its own counter, which is still zero. So where at least one mint is required it
never returns true, and what it reports is right only where it leaves early or the witness does
not verify.
-/

namespace GiantCore

open CoinDenomination

/-- What is known before the loop: where the coin was minted, the block where the walk starts,
and the accumulator that it starts from. -/
structure WitnessStart where
  nHeightMintAdded : Nat
  pindex : Option Nat
  first : Accumulator
  deriving DecidableEq, Repr

/-- The scan after some coins went into the witness. -/
def WitnessScan.fold (lib : Libzerocoin) (scan : WitnessScan) (coins : List CBigNum) :
    WitnessScan :=
  { scan with
    witnessAccumulator := coins.foldl (Accumulator.increment lib) scan.witnessAccumulator
    nMintsAdded := scan.nMintsAdded + coins.length }

namespace WitnessContext

variable (ctx : WitnessContext)

/-- `GenerateAccumulatorWitness` up to the loop. -/
def witnessStart (coin : PublicCoin) (accumulator : Accumulator) :
    Except WitnessFailure WitnessStart := do
  if !ctx.lockMethod then throw (.error "could not get lock on cs_main")
  let nHeightMintAdded ← ctx.searchMintHeightOf coin.value
  let nHeightCheckpoint : Nat := nHeightMintAdded + (10 - nHeightMintAdded % 10)
  let (nHeightCheckpoint, first) ←
    match ← ctx.getAccumulatorValue nHeightCheckpoint coin.denomination with
    | none => pure ((nHeightCheckpoint : Int), accumulator)
    | some (nHeightCheckpoint, bnAccValue) =>
        pure (nHeightCheckpoint, { accumulator with value := ctx.startValue bnAccValue })
  return {
    nHeightMintAdded
    pindex := if nHeightCheckpoint < 10 then none else some (nHeightCheckpoint - 10).toNat
    first }

/-- The coins of a block that go into the witness. -/
def blockCoins (coin : PublicCoin) (nHeightMintAdded height : Nat) : List CBigNum :=
  if coin.denomination ∈ ctx.vMintDenominationsInBlock height then
    match ctx.getPubcoinFromBlock height with
    | .error _ => []
    | .ok listPubcoins => addedCoins coin nHeightMintAdded height true listPubcoins
  else []

/-- The mints of the walk. -/
def foldedMints (coin : PublicCoin) (nHeightStop : Int) (start : WitnessStart) : List CBigNum :=
  match start.pindex with
  | none => []
  | some height =>
      (ctx.walkedHeights nHeightStop height).flatMap (ctx.blockCoins coin start.nHeightMintAdded)

/-- All blocks of the walk can be read. -/
def ReadsWalk (den : CoinDenomination) (nHeightStop : Int) (pindex : Option Nat) : Prop :=
  ∀ height ∈ pindex, ∀ walked ∈ ctx.walkedHeights nHeightStop height, ctx.ReadsMints den walked

/-- The accumulator that the witness is compared with: that of the checkpoint ten blocks above the
end of the walk. -/
def comparedWith (den : CoinDenomination) (nHeightStop : Int) (pindex : Option Nat)
    (first : Accumulator) : Except WitnessFailure Accumulator :=
  match pindex with
  | none => .ok first
  | some height =>
      let stop := max height nHeightStop.toNat
      if stop < ctx.chainActive.length then
        if invalidCheckpointRange ctx.params stop then .error .endless
        else do
          let bnAccValue ← ctx.readCheckpoint den stop
          return { first with value := bnAccValue }
      else .ok first

variable {ctx} {coin : PublicCoin} {accumulator : Accumulator} {pindexCheckpoint : Option Nat}
  {nHeightStop : Int} {start : WitnessStart}

/-! ## The walk -/

theorem addCoinBlock_eq_ok {nHeightMintAdded height : Nat}
    (reads : ctx.ReadsMints coin.denomination height) (scan : WitnessScan) :
    ctx.addCoinBlock coin nHeightMintAdded height scan =
      .ok (scan.fold ctx.lib (ctx.blockCoins coin nHeightMintAdded height)) := by
  unfold addCoinBlock addBlockMintsToAccumulator blockCoins
  split
  · rename_i listed
    obtain ⟨listPubcoins, read⟩ := reads listed
    rw [read]
    rfl
  · rfl

theorem addCoinBlock_eq_error {nHeightMintAdded height : Nat}
    (unreadable : ¬ ctx.ReadsMints coin.denomination height) (scan : WitnessScan) :
    ∃ text, ctx.addCoinBlock coin nHeightMintAdded height scan = .error (.error text) := by
  unfold ReadsMints at unreadable
  rw [Classical.not_imp] at unreadable
  obtain ⟨listed, fails⟩ := unreadable
  unfold addCoinBlock addBlockMintsToAccumulator
  rw [if_pos listed]
  unfold getPubcoinFromBlock at *
  cases disk : ctx.chainActive[height]?.bind ChainEntry.block with
  | none => exact ⟨_, rfl⟩
  | some block =>
      rw [disk] at fails
      cases list : blockToPubcoinList ctx.validOutPoint true block with
      | none => simp [list, throw, throwThe, MonadExceptOf.throw, bind, Except.bind]
      | some listPubcoins => simp [list, pure, Except.pure] at fails

/-- A walk that can be read folds the coins of its blocks. -/
theorem foldlM_addCoinBlock {nHeightMintAdded : Nat} (heights : List Nat) (scan : WitnessScan)
    (reads : ∀ height ∈ heights, ctx.ReadsMints coin.denomination height) :
    heights.foldlM (fun scan height => ctx.addCoinBlock coin nHeightMintAdded height scan) scan =
      .ok (scan.fold ctx.lib (heights.flatMap (ctx.blockCoins coin nHeightMintAdded))) := by
  induction heights generalizing scan with
  | nil => rfl
  | cons height rest ih =>
      rw [List.forall_mem_cons] at reads
      rw [List.foldlM_cons, addCoinBlock_eq_ok reads.1]
      show List.foldlM _ _ rest = _
      rw [ih _ reads.2]
      simp [WitnessScan.fold, List.foldl_append, Nat.add_assoc]

/-- A walk that cannot be read is left with an error. -/
theorem foldlM_addCoinBlock_eq_error {nHeightMintAdded : Nat} (heights : List Nat)
    (scan : WitnessScan)
    (unreadable : ¬ ∀ height ∈ heights, ctx.ReadsMints coin.denomination height) :
    ∃ text, heights.foldlM (fun scan height => ctx.addCoinBlock coin nHeightMintAdded height scan)
      scan = .error (.error text) := by
  induction heights generalizing scan with
  | nil => simp at unreadable
  | cons height rest ih =>
      rw [List.foldlM_cons]
      by_cases reads : ctx.ReadsMints coin.denomination height
      · rw [addCoinBlock_eq_ok reads]
        refine ih _ fun later => unreadable ?_
        rw [List.forall_mem_cons]
        exact ⟨reads, later⟩
      · obtain ⟨text, fails⟩ : ∃ text, ctx.addCoinBlock coin nHeightMintAdded height scan =
            .error (.error text) := addCoinBlock_eq_error reads scan
        rw [fails]
        exact ⟨text, rfl⟩

/-- The loop from the start of a witness. -/
theorem scanFor_eq_bind :
    ctx.scanFor coin accumulator pindexCheckpoint =
      ctx.witnessStart coin accumulator >>= fun start =>
        match start.pindex with
        | none => .ok ⟨start.first, start.first, 0⟩
        | some height => ctx.accumulateUntil coin start.nHeightMintAdded
            (ctx.stopHeight pindexCheckpoint) false height ⟨start.first, start.first, 0⟩ := by
  unfold scanFor witnessStart
  cases ctx.lockMethod with
  | false => rfl
  | true =>
      cases ctx.searchMintHeightOf coin.value with
      | error failure => rfl
      | ok nHeightMintAdded =>
          simp only [Bool.not_true, Bool.false_eq_true, if_false, bind, Except.bind, pure,
            Except.pure]
          cases ctx.getAccumulatorValue (nHeightMintAdded + (10 - nHeightMintAdded % 10) : Nat)
              coin.denomination with
          | error failure => rfl
          | ok found =>
              cases found with
              | none =>
                  dsimp only
                  split <;> rfl
              | some value =>
                  dsimp only
                  split <;> rfl

/-- A walk that can be read. -/
theorem scanFor_eq_map (started : ctx.witnessStart coin accumulator = .ok start)
    (reads : ctx.ReadsWalk coin.denomination (ctx.stopHeight pindexCheckpoint) start.pindex) :
    ctx.scanFor coin accumulator pindexCheckpoint =
      (ctx.comparedWith coin.denomination (ctx.stopHeight pindexCheckpoint) start.pindex
        start.first).map fun compared =>
          { (WitnessScan.mk start.first start.first 0).fold ctx.lib
              (ctx.foldedMints coin (ctx.stopHeight pindexCheckpoint) start) with
            accumulator := compared } := by
  rw [scanFor_eq_bind, started]
  show (match start.pindex with | none => _ | some height => _) = _
  unfold comparedWith foldedMints
  cases pindex : start.pindex with
  | none => rfl
  | some height =>
      dsimp only
      rw [accumulateUntil_eq_scanBlocks, scanBlocks_eq,
        foldlM_addCoinBlock _ _
          fun walked member => reads height (by rw [pindex]; rfl) walked member]
      show ctx.finishWalk _ _ _ = _
      unfold finishWalk
      split
      · cases invalid : invalidCheckpointRange ctx.params
            (max height (ctx.stopHeight pindexCheckpoint).toNat : Nat) with
        | true => rfl
        | false =>
            rw [if_neg Bool.false_ne_true, if_neg Bool.false_ne_true,
              readStopValue_eq_map _ invalid]
            cases ctx.readCheckpoint coin.denomination
              (max height (ctx.stopHeight pindexCheckpoint).toNat) <;> rfl
      · rfl

/-- A walk that cannot be read. -/
theorem scanFor_eq_error (started : ctx.witnessStart coin accumulator = .ok start)
    (unreadable :
      ¬ ctx.ReadsWalk coin.denomination (ctx.stopHeight pindexCheckpoint) start.pindex) :
    ∃ text, ctx.scanFor coin accumulator pindexCheckpoint = .error (.error text) := by
  rw [scanFor_eq_bind, started]
  simp only [bind, Except.bind]
  cases pindex : start.pindex with
  | none => exact absurd (fun height found => by rw [pindex] at found; cases found) unreadable
  | some height =>
      dsimp only
      have first : ¬ ∀ walked ∈ ctx.walkedHeights (ctx.stopHeight pindexCheckpoint) height,
          ctx.ReadsMints coin.denomination walked := by
        intro all
        apply unreadable
        intro other found
        rw [pindex] at found
        cases found
        exact all
      obtain ⟨text, fails⟩ : ∃ text, (ctx.walkedHeights (ctx.stopHeight pindexCheckpoint)
          height).foldlM (fun scan height =>
            ctx.addCoinBlock coin start.nHeightMintAdded height scan)
            ⟨start.first, start.first, 0⟩ = .error (.error text) :=
        foldlM_addCoinBlock_eq_error _ _ first
      rw [accumulateUntil_eq_scanBlocks, scanBlocks_eq, fails]
      exact ⟨text, rfl⟩

/-- The end of a walk fails with an exception that is not caught, if it does. -/
theorem comparedWith_ne_error {den : CoinDenomination} {pindex : Option Nat} {first : Accumulator}
    (text : String) : ctx.comparedWith den nHeightStop pindex first ≠ .error (.error text) := by
  unfold comparedWith
  cases pindex with
  | none => exact nofun
  | some height =>
      dsimp only
      split
      · split
        · exact nofun
        · obtain ⟨bnAccValue, read⟩ | absent | ⟨text, thrown⟩ :=
            ctx.readCheckpoint_cases den (max height nHeightStop.toNat)
          · rw [read]
            exact nofun
          · rw [absent]
            exact nofun
          · rw [thrown]
            exact nofun
      · exact nofun

/-! ## What is reported -/

variable (ctx)

/-- The lock, the mint height or a block of the walk is not there. -/
def LeavesEarly (coin : PublicCoin) (accumulator : Accumulator) (pindexCheckpoint : Option Nat) :
    Prop :=
  (∃ text, ctx.witnessStart coin accumulator = .error (.error text)) ∨
    ∃ start, ctx.witnessStart coin accumulator = .ok start ∧
      ¬ ctx.ReadsWalk coin.denomination (ctx.stopHeight pindexCheckpoint) start.pindex

/-- Enough mints are folded into the witness, and this is what its verification says. -/
def EnoughJudged (coin : PublicCoin) (accumulator : Accumulator) (witness : AccumulatorWitness)
    (pindexCheckpoint : Option Nat) (verdict : Bool) : Prop :=
  ∃ start compared, ctx.witnessStart coin accumulator = .ok start ∧
    ctx.ReadsWalk coin.denomination (ctx.stopHeight pindexCheckpoint) start.pindex ∧
    ctx.comparedWith coin.denomination (ctx.stopHeight pindexCheckpoint) start.pindex start.first =
      .ok compared ∧
    ctx.params.nRequiredAccumulation ≤
      (ctx.foldedMints coin (ctx.stopHeight pindexCheckpoint) start).length ∧
    (witness.resetValue ((ctx.foldedMints coin (ctx.stopHeight pindexCheckpoint) start).foldl
      (Accumulator.increment ctx.lib) start.first) coin).verifyWitness ctx.lib compared coin =
        .ok verdict

/-- **The truth is reported**: the function returns, with true exactly for a witness of enough
mints that verifies, and then with the number of its mints. -/
structure ReportsTruth (coin : PublicCoin) (accumulator : Accumulator)
    (witness : AccumulatorWitness) (pindexCheckpoint : Option Nat) : Prop where
  returns : (∃ result, ctx.generateAccumulatorWitness coin accumulator witness pindexCheckpoint =
      .ok result) ∨
    ∃ text, ctx.generateAccumulatorWitness coin accumulator witness pindexCheckpoint =
      .error (.error text)
  truth : (∃ result, ctx.generateAccumulatorWitness coin accumulator witness pindexCheckpoint =
      .ok result) ↔ ctx.EnoughJudged coin accumulator witness pindexCheckpoint true
  count : ∀ made madeWitness nMintsAdded,
    ctx.generateAccumulatorWitness coin accumulator witness pindexCheckpoint =
      .ok (made, madeWitness, nMintsAdded) →
    ∃ start accumulated, ctx.witnessStart coin accumulator = .ok start ∧
      ctx.computeAccumulatedCoins (accStartHeight start.nHeightMintAdded) coin.denomination =
        .ok accumulated ∧
      nMintsAdded = (ctx.foldedMints coin (ctx.stopHeight pindexCheckpoint) start).length +
        accumulated

variable {ctx} {witness : AccumulatorWitness}

/-- What happens after a walk that was read. -/
theorem generateAccumulatorWitness_of_reads (required : 0 < ctx.params.nRequiredAccumulation)
    (started : ctx.witnessStart coin accumulator = .ok start)
    (reads : ctx.ReadsWalk coin.denomination (ctx.stopHeight pindexCheckpoint) start.pindex) :
    (∃ text, ctx.generateAccumulatorWitness coin accumulator witness pindexCheckpoint =
        .error (.error text)) ↔
      ∃ verdict, ctx.EnoughJudged coin accumulator witness pindexCheckpoint verdict := by
  unfold generateAccumulatorWitness
  rw [scanFor_eq_map started reads]
  cases ends : ctx.comparedWith coin.denomination (ctx.stopHeight pindexCheckpoint) start.pindex
      start.first with
  | error failure =>
      refine iff_of_false ?_ ?_
      · rintro ⟨text, same⟩
        cases same
        exact comparedWith_ne_error text ends
      · rintro ⟨verdict, other, compared, startedToo, -, endsToo, -⟩
        rw [started] at startedToo
        cases startedToo
        rw [ends] at endsToo
        cases endsToo
  | ok compared =>
      have judged_iff : (∃ verdict, ctx.EnoughJudged coin accumulator witness pindexCheckpoint
          verdict) ↔ ctx.params.nRequiredAccumulation ≤
            (ctx.foldedMints coin (ctx.stopHeight pindexCheckpoint) start).length ∧
          ∃ verdict, (witness.resetValue ((ctx.foldedMints coin (ctx.stopHeight pindexCheckpoint)
            start).foldl (Accumulator.increment ctx.lib) start.first) coin).verifyWitness ctx.lib
              compared coin = .ok verdict := by
        constructor
        · rintro ⟨verdict, other, comparedToo, startedToo, -, endsToo, enough, judged⟩
          rw [started] at startedToo
          cases startedToo
          rw [ends] at endsToo
          cases endsToo
          exact ⟨enough, verdict, judged⟩
        · rintro ⟨enough, verdict, judged⟩
          exact ⟨verdict, start, compared, started, reads, ends, enough, judged⟩
      rw [judged_iff]
      simp only [Except.map, bind, Except.bind, WitnessScan.fold, Nat.zero_add]
      by_cases few : ((ctx.foldedMints coin (ctx.stopHeight pindexCheckpoint) start).length : Int) <
          ctx.params.nRequiredAccumulation
      · rw [if_pos few]
        refine iff_of_false (by rintro ⟨text, same⟩; cases same) ?_
        rintro ⟨enough, -⟩
        omega
      · rw [if_neg few, and_iff_right (not_lt.mp few)]
        cases (witness.resetValue ((ctx.foldedMints coin (ctx.stopHeight pindexCheckpoint)
            start).foldl (Accumulator.increment ctx.lib) start.first) coin).verifyWitness ctx.lib
              compared coin with
        | error text =>
            refine iff_of_false (by rintro ⟨text, same⟩; cases same) ?_
            rintro ⟨verdict, same⟩
            cases same
        | ok verdict =>
            cases verdict with
            | false => exact iff_of_true ⟨_, rfl⟩ ⟨false, rfl⟩
            | true =>
                dsimp only
                rw [if_pos required]
                exact iff_of_true ⟨_, rfl⟩ ⟨true, rfl⟩

/-- A witness is judged in one way. -/
theorem EnoughJudged.eq {verdict other : Bool}
    (judged : ctx.EnoughJudged coin accumulator witness pindexCheckpoint verdict)
    (judgedToo : ctx.EnoughJudged coin accumulator witness pindexCheckpoint other) :
    verdict = other := by
  obtain ⟨first, compared, started, -, ends, -, verifies⟩ := judged
  obtain ⟨second, comparedToo, startedToo, -, endsToo, -, verifiesToo⟩ := judgedToo
  rw [started] at startedToo
  cases startedToo
  rw [ends] at endsToo
  cases endsToo
  rw [verifies] at verifiesToo
  exact Except.ok.inj verifiesToo

/-- Without a walk that was read there is no judgement. -/
theorem EnoughJudged.reads {verdict : Bool}
    (judged : ctx.EnoughJudged coin accumulator witness pindexCheckpoint verdict)
    (started : ctx.witnessStart coin accumulator = .ok start) :
    ctx.ReadsWalk coin.denomination (ctx.stopHeight pindexCheckpoint) start.pindex := by
  obtain ⟨other, compared, startedToo, reads, -⟩ := judged
  rw [started] at startedToo
  cases startedToo
  exact reads

/-- **When the truth is reported.** Where at least one mint is required, it is exactly if the
function leaves before the walk is at its end, or a witness of enough mints does not verify. -/
theorem reportsTruth_iff (ctx : WitnessContext) (coin : PublicCoin) (accumulator : Accumulator)
    (witness : AccumulatorWitness) (pindexCheckpoint : Option Nat)
    (required : 0 < ctx.params.nRequiredAccumulation) :
    ctx.ReportsTruth coin accumulator witness pindexCheckpoint ↔
      ctx.LeavesEarly coin accumulator pindexCheckpoint ∨
        ctx.EnoughJudged coin accumulator witness pindexCheckpoint false := by
  have never : ¬ ∃ result, ctx.generateAccumulatorWitness coin accumulator witness
      pindexCheckpoint = .ok result := by
    rintro ⟨result, made⟩
    exact generateAccumulatorWitness_ne_ok required _ _ _ _ _ made
  have reports_iff : ctx.ReportsTruth coin accumulator witness pindexCheckpoint ↔
      (∃ text, ctx.generateAccumulatorWitness coin accumulator witness pindexCheckpoint =
        .error (.error text)) ∧
      ¬ ctx.EnoughJudged coin accumulator witness pindexCheckpoint true := by
    constructor
    · exact fun reports => ⟨reports.returns.resolve_left never,
        fun enough => never (reports.truth.mpr enough)⟩
    · rintro ⟨returns, unverified⟩
      exact ⟨Or.inr returns, iff_of_false never unverified,
        fun _ _ _ made => absurd ⟨_, made⟩ never⟩
  rw [reports_iff]
  cases started : ctx.witnessStart coin accumulator with
  | error failure =>
      have fails : ctx.generateAccumulatorWitness coin accumulator witness pindexCheckpoint =
          .error failure := by
        unfold generateAccumulatorWitness
        rw [scanFor_eq_bind, started]
        rfl
      have unjudged : ∀ verdict,
          ¬ ctx.EnoughJudged coin accumulator witness pindexCheckpoint verdict := by
        rintro verdict ⟨start, compared, startedToo, -⟩
        rw [started] at startedToo
        cases startedToo
      rw [fails, LeavesEarly, started, and_iff_left (unjudged true), or_iff_left (unjudged false)]
      simp
  | ok start =>
      have early_iff : ctx.LeavesEarly coin accumulator pindexCheckpoint ↔
          ¬ ctx.ReadsWalk coin.denomination (ctx.stopHeight pindexCheckpoint) start.pindex := by
        rw [LeavesEarly, started]
        simp
      rw [early_iff]
      by_cases reads : ctx.ReadsWalk coin.denomination (ctx.stopHeight pindexCheckpoint)
          start.pindex
      · rw [generateAccumulatorWitness_of_reads required started reads]
        constructor
        · rintro ⟨⟨verdict, judged⟩, unverified⟩
          cases verdict with
          | false => exact Or.inr judged
          | true => exact absurd judged unverified
        · rintro (unreadable | judged)
          · exact absurd reads unreadable
          · exact ⟨⟨false, judged⟩, fun verified => Bool.false_ne_true (judged.eq verified)⟩
      · obtain ⟨text, fails⟩ : ∃ text, ctx.scanFor coin accumulator pindexCheckpoint =
            .error (.error text) := scanFor_eq_error started reads
        refine iff_of_true ⟨⟨text, ?_⟩, ?_⟩ (Or.inl reads)
        · unfold generateAccumulatorWitness
          rw [fails]
          rfl
        · exact fun judged => reads (judged.reads started)

end WitnessContext

/-! ## A coin with one mint beside it -/

/-- The accumulator and the witness of a new call. -/
def freshWitness : AccumulatorWitness :=
  ⟨Accumulator.fresh Libzerocoin.plain false .one, ⟨7, .one⟩⟩

theorem reportsTruth_mintedChain :
    (witnessContext (mintedChain [7])).ReportsTruth ⟨7, .one⟩
        (Accumulator.fresh Libzerocoin.plain false .one) freshWitness (some 70) ↔
      (witnessContext (mintedChain [7])).LeavesEarly ⟨7, .one⟩
          (Accumulator.fresh Libzerocoin.plain false .one) (some 70) ∨
        (witnessContext (mintedChain [7])).EnoughJudged ⟨7, .one⟩
          (Accumulator.fresh Libzerocoin.plain false .one) freshWitness (some 70) false :=
  WitnessContext.reportsTruth_iff (witnessContext (mintedChain [7])) ⟨7, .one⟩ _ freshWitness
    (some 70) (by decide)

/-- The coin 11 is folded into the witness of the coin 7, which verifies. -/
theorem enoughJudged_mintedChain :
    (witnessContext (mintedChain [7])).EnoughJudged ⟨7, .one⟩
      (Accumulator.fresh Libzerocoin.plain false .one) freshWitness (some 70) true := by
  refine ⟨⟨42, some 40, ⟨false, .one, foldCoins Libzerocoin.plain 961 [5]⟩⟩,
    ⟨false, .one, foldCoins Libzerocoin.plain 961 [5, 7, 11]⟩, by decide +kernel, ?_,
    by decide +kernel, by decide +kernel, by decide +kernel⟩
  intro height found
  cases found
  decide +kernel

theorem not_reportsTruth_mintedChain :
    ¬ (witnessContext (mintedChain [7])).ReportsTruth ⟨7, .one⟩
      (Accumulator.fresh Libzerocoin.plain false .one) freshWitness (some 70) := by
  intro reports
  obtain ⟨result, made⟩ := reports.truth.mpr enoughJudged_mintedChain
  exact WitnessContext.generateAccumulatorWitness_ne_ok (by decide) _ _ _ _ _ made

end GiantCore
