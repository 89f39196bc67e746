import GiantCore.Mining.CoinStake
import Mathlib.Algebra.Order.BigOperators.Group.List

/-! # Coin selection

`SelectCoinsMinConf` looks for outputs that pay a target: one that is equal to it, all the smaller
ones together, the smallest larger one, or a subset that `ApproximateBestSubset` finds with random
bits. It finds some exactly if all outputs together suffice (`selectCoinsMinConf_iff`), as long as
no sum leaves 64 bits. The masks of the random search and their sums stay in step
(`SubsetSearch.Valid`).
-/

namespace GiantCore

/-! ## The subset search -/

/-- What `ApproximateBestSubset` works on. -/
structure SubsetSearch where
  vfIncluded : List Bool
  nTotal : CAmount
  fReachedTarget : Bool
  vfBest : List Bool
  nBest : CAmount

namespace SubsetSearch

/-- The coin at a place is included, and taken out again when the target is reached. -/
def tryCoin (nTargetValue : CAmount) (s : SubsetSearch) (i : Nat) (value : CAmount) :
    SubsetSearch :=
  let nTotal := wrapAmount (s.nTotal + value)
  let vfIncluded := s.vfIncluded.set i true
  if nTotal ≥ nTargetValue then
    let best := if nTotal < s.nBest then (vfIncluded, nTotal) else (s.vfBest, s.nBest)
    { vfIncluded := vfIncluded.set i false, nTotal := wrapAmount (nTotal - value)
      fReachedTarget := true, vfBest := best.1, nBest := best.2 }
  else { s with nTotal, vfIncluded }

/-- One pass over the values from a place on. -/
def pass (choose : Nat → List Bool → Bool) (nTargetValue : CAmount) :
    Nat → List CAmount → SubsetSearch → SubsetSearch
  | _, [], s => s
  | i, value :: rest, s =>
      pass choose nTargetValue (i + 1) rest
        (if choose i s.vfIncluded then s.tryCoin nTargetValue i value else s)

end SubsetSearch

/-- One repetition: random coins first, and then the others unless the target is reached. -/
def subsetRepetition (vValue : List CAmount) (nTargetValue : CAmount) (randomBit : Nat → Bool)
    (best : List Bool × CAmount) : List Bool × CAmount :=
  let start : SubsetSearch :=
    { vfIncluded := List.replicate vValue.length false, nTotal := 0, fReachedTarget := false
      vfBest := best.1, nBest := best.2 }
  let first := start.pass (fun i _ => randomBit i) nTargetValue 0 vValue
  let last := if first.fReachedTarget then first
    else first.pass (fun i vfIncluded => !vfIncluded.getD i false) nTargetValue 0 vValue
  (last.vfBest, last.nBest)

/-- The loop over the repetitions. -/
def subsetRepetitions (vValue : List CAmount) (nTargetValue : CAmount)
    (randomBit : Nat → Nat → Bool) : Nat → Nat → List Bool × CAmount → List Bool × CAmount
  | 0, _, best => best
  | iterations + 1, nRep, best =>
      if best.2 = nTargetValue then best
      else subsetRepetitions vValue nTargetValue randomBit iterations (nRep + 1)
        (subsetRepetition vValue nTargetValue (randomBit nRep) best)

/-- `ApproximateBestSubset`: the best mask and its sum. -/
def approximateBestSubset (vValue : List CAmount) (nTotalLower nTargetValue : CAmount)
    (randomBit : Nat → Nat → Bool) : List Bool × CAmount :=
  subsetRepetitions vValue nTargetValue randomBit 1000 0
    (List.replicate vValue.length true, nTotalLower)

/-- The values under a mask. -/
def maskSum : List Bool → List CAmount → CAmount
  | included :: mask, value :: rest => (if included then value else 0) + maskSum mask rest
  | _, _ => 0

/-- All values together. -/
theorem maskSum_replicate_true (values : List CAmount) :
    maskSum (List.replicate values.length true) values = values.sum := by
  induction values with
  | nil => rfl
  | cons value rest ih => simp [List.replicate_succ, maskSum, ih]

/-- No value at all. -/
theorem maskSum_replicate_false (values : List CAmount) :
    maskSum (List.replicate values.length false) values = 0 := by
  induction values with
  | nil => rfl
  | cons value rest ih => simp [List.replicate_succ, maskSum, ih]

/-- One more value. -/
theorem maskSum_set {mask : List Bool} {values : List CAmount} {i : Nat} {value : CAmount}
    (fresh : mask[i]? = some false) (here : values[i]? = some value) :
    maskSum (mask.set i true) values = maskSum mask values + value := by
  induction mask generalizing values i with
  | nil => cases fresh
  | cons included rest ih =>
      cases values with
      | nil => cases here
      | cons first values =>
          cases i with
          | zero =>
              cases fresh
              cases here
              simp [maskSum, add_comm]
          | succ i =>
              rw [List.set_cons_succ, maskSum, maskSum, ih fresh here, add_assoc]

/-- The values are amounts whose sum fits into 64 bits. -/
structure InRange (values : List CAmount) : Prop where
  nonneg : ∀ value ∈ values, 0 ≤ value
  small : values.sum < 2 ^ 63

/-- What is under a mask fits as well. -/
theorem maskSum_bounds {values : List CAmount} (nonneg : ∀ value ∈ values, 0 ≤ value)
    (mask : List Bool) : 0 ≤ maskSum mask values ∧ maskSum mask values ≤ values.sum := by
  induction values generalizing mask with
  | nil => cases mask <;> exact ⟨le_rfl, le_rfl⟩
  | cons value rest ih =>
      rw [List.forall_mem_cons] at nonneg
      rw [List.sum_cons]
      cases mask with
      | nil =>
          have whole := ih nonneg.2 []
          exact ⟨le_rfl, add_nonneg nonneg.1 (whole.1.trans whole.2)⟩
      | cons included mask =>
          obtain ⟨low, high⟩ := ih nonneg.2 mask
          rw [maskSum]
          split
          · exact ⟨add_nonneg nonneg.1 low, (add_le_add_iff_left value).mpr high⟩
          · exact ⟨by rwa [zero_add], add_le_add nonneg.1 high⟩

/-- No partial sum wraps around. -/
theorem InRange.wrapAmount_maskSum {values : List CAmount} (inRange : InRange values)
    (mask : List Bool) : wrapAmount (maskSum mask values) = maskSum mask values := by
  obtain ⟨low, high⟩ := maskSum_bounds inRange.nonneg mask
  exact wrapAmount_of_bounds (le_trans (by decide) low) (high.trans_lt inRange.small)

/-- A mask is one of coins that reach the target, and its sum is known. -/
structure BestSubset (values : List CAmount) (nTargetValue : CAmount)
    (best : List Bool × CAmount) : Prop where
  length : best.1.length = values.length
  sum : best.2 = maskSum best.1 values
  reaches : nTargetValue ≤ best.2

namespace SubsetSearch

/-- The total is that of the mask, and so is the best one. -/
structure Valid (values : List CAmount) (nTargetValue : CAmount) (s : SubsetSearch) : Prop where
  length : s.vfIncluded.length = values.length
  total : s.nTotal = maskSum s.vfIncluded values
  best : BestSubset values nTargetValue (s.vfBest, s.nBest)

variable {values : List CAmount} {nTargetValue : CAmount} {s : SubsetSearch}

/-- A coin that is tried and left out again. -/
theorem set_set_of_fresh {mask : List Bool} {i : Nat} (fresh : mask[i]? = some false) :
    (mask.set i true).set i false = mask := by
  obtain ⟨inside, same⟩ := List.getElem?_eq_some_iff.mp fresh
  rw [List.set_set, ← same, List.set_getElem_self]

/-- Trying a coin keeps the search valid. -/
theorem Valid.tryCoin (inRange : InRange values) {i : Nat} {value : CAmount}
    (valid : s.Valid values nTargetValue) (fresh : s.vfIncluded[i]? = some false)
    (here : values[i]? = some value) :
    (s.tryCoin nTargetValue i value).Valid values nTargetValue := by
  have sum := maskSum_set fresh here
  have added : wrapAmount (s.nTotal + value) = maskSum (s.vfIncluded.set i true) values := by
    rw [valid.total, ← sum, inRange.wrapAmount_maskSum]
  unfold SubsetSearch.tryCoin
  dsimp only
  rw [added]
  split
  · rename_i reached
    refine ⟨?_, ?_, ?_⟩
    · rw [set_set_of_fresh fresh]
      exact valid.length
    · rw [set_set_of_fresh fresh, sum, add_sub_cancel_right, inRange.wrapAmount_maskSum]
    · dsimp only
      split
      · refine ⟨?_, ?_, reached⟩
        · rw [List.length_set]
          exact valid.length
        · rfl
      · exact valid.best
  · refine ⟨?_, ?_, valid.best⟩
    · rw [List.length_set]
      exact valid.length
    · rfl

/-- Trying a coin changes its own bit only. -/
theorem vfIncluded_tryCoin (nTargetValue : CAmount) (s : SubsetSearch) (i : Nat)
    (value : CAmount) : ∃ included,
      (s.tryCoin nTargetValue i value).vfIncluded = s.vfIncluded.set i included := by
  unfold tryCoin
  dsimp only
  split
  · exact ⟨false, List.set_set _⟩
  · exact ⟨true, rfl⟩

/-- A pass keeps the sums in step if it chooses only coins that are not included. -/
theorem Valid.pass (inRange : InRange values) (choose : Nat → List Bool → Bool)
    (later : Nat → List Bool → Prop)
    (fresh : ∀ i mask, later i mask → i < mask.length → choose i mask = true →
      mask[i]? = some false)
    (next : ∀ i mask, later i mask → later (i + 1) mask ∧
      ∀ included, later (i + 1) (mask.set i included))
    {i : Nat} {rest : List CAmount} (aligned : values.drop i = rest)
    (valid : s.Valid values nTargetValue) (start : later i s.vfIncluded) :
    (s.pass choose nTargetValue i rest).Valid values nTargetValue := by
  induction rest generalizing i s with
  | nil => exact valid
  | cons value rest ih =>
      have here : values[i]? = some value := by
        have first := congrArg (·[0]?) aligned
        simpa [List.getElem?_drop] using first
      have behind : values.drop (i + 1) = rest := by
        rw [← List.tail_drop, aligned, List.tail_cons]
      have inside : i < s.vfIncluded.length := by
        rw [valid.length]
        exact (List.getElem?_eq_some_iff.mp here).1
      obtain ⟨kept, set⟩ := next i s.vfIncluded start
      rw [SubsetSearch.pass]
      split
      · rename_i chosen
        obtain ⟨included, changed⟩ := vfIncluded_tryCoin nTargetValue s i value
        refine ih behind (valid.tryCoin inRange (fresh i _ start inside chosen) here) ?_
        rw [changed]
        exact set included
      · exact ih behind valid kept

end SubsetSearch

/-- A repetition keeps the best mask one of coins that reach the target. -/
theorem BestSubset.subsetRepetition {values : List CAmount} {nTargetValue : CAmount}
    {best : List Bool × CAmount} (inRange : InRange values)
      (known : BestSubset values nTargetValue best)
    (randomBit : Nat → Bool) :
    BestSubset values nTargetValue (subsetRepetition values nTargetValue randomBit best) := by
  have start : SubsetSearch.Valid values nTargetValue
      { vfIncluded := List.replicate values.length false, nTotal := 0, fReachedTarget := false
        vfBest := best.1, nBest := best.2 } :=
    ⟨List.length_replicate, (maskSum_replicate_false values).symm, known⟩
  -- in the first pass the coins from the current one on are not included
  have first := start.pass inRange (fun i _ => randomBit i)
    (fun i mask => ∀ j, i ≤ j → j < mask.length → mask[j]? = some false)
    (fun i mask untouched inside _ => untouched i (Nat.le_refl i) inside)
    (fun i mask untouched => ⟨fun j after inside => untouched j (by omega) inside,
      fun included j after inside => by
        rw [List.length_set] at inside
        rw [List.getElem?_set_ne (by omega)]
        exact untouched j (by omega) inside⟩)
    (rfl : values.drop 0 = values) (fun j _ inside => by
      rw [List.length_replicate] at inside
      rw [List.getElem?_replicate, if_pos inside])
  unfold GiantCore.subsetRepetition
  dsimp only
  split
  · exact first.best
  · exact (first.pass inRange (fun i vfIncluded => !vfIncluded.getD i false) (fun _ _ => True)
      (fun i mask _ inside chosen => by
        rw [List.getD_eq_getElem?_getD, List.getElem?_eq_getElem inside, Option.getD_some,
          Bool.not_eq_true'] at chosen
        rw [List.getElem?_eq_getElem inside, chosen])
      (fun _ _ _ => ⟨trivial, fun _ => trivial⟩) (rfl : values.drop 0 = values) trivial).best

/-- Every repetition keeps a best subset. -/
theorem BestSubset.subsetRepetitions {values : List CAmount} {nTargetValue : CAmount}
    {best : List Bool × CAmount} (inRange : InRange values)
      (known : BestSubset values nTargetValue best)
    (randomBit : Nat → Nat → Bool) (iterations nRep : Nat) :
    BestSubset values nTargetValue
      (subsetRepetitions values nTargetValue randomBit iterations nRep best) := by
  induction iterations generalizing nRep best with
  | zero => exact known
  | succ iterations ih =>
      rw [GiantCore.subsetRepetitions]
      split
      · exact known
      · exact ih (known.subsetRepetition inRange _) (nRep + 1)

/-- **The subset search** ends with coins that reach the target, and with their sum. -/
theorem bestSubset_approximateBestSubset {values : List CAmount} {nTargetValue : CAmount}
    (inRange : InRange values) (enough : nTargetValue ≤ values.sum) (randomBit : Nat → Nat → Bool) :
    BestSubset values nTargetValue
      (approximateBestSubset values values.sum nTargetValue randomBit) :=
  BestSubset.subsetRepetitions inRange
    ⟨List.length_replicate, (maskSum_replicate_true values).symm, enough⟩ _ _ _

/-! ## The selection -/

/-- An output of the wallet. Its transaction stands for the pointer to it. -/
structure COutput where
  tx : Uint256
  i : Nat
  nValue : CAmount
  nDepth : Int
  fSpendable : Bool
  /-- `IsFromMe` of the transaction. -/
  fFromMe : Bool
  deriving DecidableEq, Repr

/-- What goes into `setCoinsRet`. -/
def COutput.coin (output : COutput) : Uint256 × Nat := (output.tx, output.i)

/-- What the selection calls: the shuffle, the two sorts, the random bits of the two searches and
the denominations. -/
structure SelectionEnv where
  randomShuffle : List COutput → List COutput
  sortByDenom : List COutput → List COutput
  sortByValue : List COutput → List COutput
  randomBit : Nat → Nat → Nat → Bool
  isDenominatedAmount : CAmount → Bool

/-- What is returned: whether the target is paid, `setCoinsRet` and `nValueRet`. -/
structure SelectedCoins where
  fSelected : Bool
  setCoinsRet : Finset (Uint256 × Nat) := ∅
  nValueRet : CAmount := 0
  deriving DecidableEq

/-- The values of outputs are added to a total one after the other. -/
def addValues (total : CAmount) (outputs : List COutput) : CAmount :=
  outputs.foldl (fun total output => wrapAmount (total + output.nValue)) total

/-- The sum of the chosen values does not wrap around. -/
theorem addValues_eq {total : CAmount} {outputs : List COutput} (low : 0 ≤ total)
    (nonneg : ∀ output ∈ outputs, 0 ≤ output.nValue)
    (small : total + (outputs.map COutput.nValue).sum < 2 ^ 63) :
    addValues total outputs = total + (outputs.map COutput.nValue).sum := by
  induction outputs generalizing total with
  | nil => exact (add_zero total).symm
  | cons output rest ih =>
      rw [List.forall_mem_cons] at nonneg
      rw [List.map_cons, List.sum_cons, ← add_assoc] at small ⊢
      have later : 0 ≤ (rest.map COutput.nValue).sum := by
        refine List.sum_nonneg fun value member => ?_
        obtain ⟨other, inside, rfl⟩ := List.mem_map.mp member
        exact nonneg.2 other inside
      have positive := add_nonneg low nonneg.1
      have next : wrapAmount (total + output.nValue) = total + output.nValue :=
        wrapAmount_of_bounds (le_trans (by decide) positive)
          ((le_add_of_nonneg_right later).trans_lt small)
      show addValues (wrapAmount (total + output.nValue)) rest = _
      rw [next]
      exact ih positive nonneg.2 small

/-- The outputs are inserted one after the other. -/
def SelectedCoins.ofOutputs (outputs : List COutput) : SelectedCoins where
  fSelected := true
  setCoinsRet := (outputs.map COutput.coin).toFinset
  nValueRet := addValues 0 outputs

/-- `coinLowestLarger`, with its value. -/
abbrev LowestLarger := CAmount × Option COutput

/-- Where the loop over the outputs arrives. -/
structure CoinScan where
  vValue : List COutput := []
  nTotalLower : CAmount := 0
  coinLowestLarger : LowestLarger

/-- `nTargetValue + CENT`. -/
def withCent (nTargetValue : CAmount) : CAmount := wrapAmount (nTargetValue + CENT)

namespace SelectionEnv

variable (env : SelectionEnv) (nTargetValue : CAmount) (nConfMine nConfTheirs : Int)

/-- The output can be spent, and is deep enough. -/
def isEligible (output : COutput) : Bool :=
  output.fSpendable &&
    !decide (output.nDepth < (if output.fFromMe then nConfMine else nConfTheirs))

/-- The loop over the outputs, which ends at one that is equal to the target. -/
def scanCoins (tryDenom : Nat) : List COutput → CoinScan → Except COutput CoinScan
  | [], scan => .ok scan
  | output :: rest, scan =>
      if !output.fSpendable then scanCoins tryDenom rest scan
      else if output.nDepth < (if output.fFromMe then nConfMine else nConfTheirs) then
        scanCoins tryDenom rest scan
      else
        let n := output.nValue
        if tryDenom = 0 ∧ env.isDenominatedAmount n then scanCoins tryDenom rest scan
        else if n = nTargetValue then .error output
        else if n < withCent nTargetValue then
          scanCoins tryDenom rest
            { scan with
              vValue := scan.vValue ++ [output], nTotalLower := wrapAmount (scan.nTotalLower + n) }
        else if n < scan.coinLowestLarger.1 then
          scanCoins tryDenom rest { scan with coinLowestLarger := (n, some output) }
        else scanCoins tryDenom rest scan

/-- The outputs under a mask. -/
def pick : List Bool → List COutput → List COutput
  | included :: mask, output :: rest =>
      if included then output :: pick mask rest else pick mask rest
  | _, _ => []

/-- What is done when the smaller coins are more than the target. -/
def solveSubset (scan : CoinScan) : SelectedCoins :=
  let vValue := env.sortByValue scan.vValue
  let values := vValue.map COutput.nValue
  let best := approximateBestSubset values scan.nTotalLower nTargetValue (env.randomBit 0)
  let best :=
    if best.2 ≠ nTargetValue ∧ scan.nTotalLower ≥ withCent nTargetValue then
      approximateBestSubset values scan.nTotalLower (withCent nTargetValue) (env.randomBit 1)
    else best
  match scan.coinLowestLarger.2 with
  | some larger =>
      if (best.2 ≠ nTargetValue ∧ best.2 < withCent nTargetValue) ∨
          scan.coinLowestLarger.1 ≤ best.2 then SelectedCoins.ofOutputs [larger]
      else SelectedCoins.ofOutputs (pick best.1 vValue)
  | none => SelectedCoins.ofOutputs (pick best.1 vValue)

/-- One round over the denominations: the result, or `coinLowestLarger` for the next round. -/
def tryDenom (round : Nat) (vCoins : List COutput) (coinLowestLarger : LowestLarger) :
    Except LowestLarger SelectedCoins :=
  match env.scanCoins nTargetValue nConfMine nConfTheirs round vCoins { coinLowestLarger } with
  | .error output => .ok (SelectedCoins.ofOutputs [output])
  | .ok scan =>
      if scan.nTotalLower = nTargetValue then .ok (SelectedCoins.ofOutputs scan.vValue)
      else if scan.nTotalLower < nTargetValue then
        match scan.coinLowestLarger.2 with
        | none => if round = 0 then .error scan.coinLowestLarger else .ok { fSelected := false }
        | some larger => .ok (SelectedCoins.ofOutputs [larger])
      else .ok (env.solveSubset nTargetValue scan)

/-- `SelectCoinsMinConf`. -/
def selectCoinsMinConf (vCoins : List COutput) : SelectedCoins :=
  let vCoins := env.sortByDenom (env.randomShuffle vCoins)
  match env.tryDenom nTargetValue nConfMine nConfTheirs 0 vCoins (2 ^ 63 - 1, none) with
  | .ok selection => selection
  | .error coinLowestLarger =>
      match env.tryDenom nTargetValue nConfMine nConfTheirs 1 vCoins coinLowestLarger with
      | .ok selection => selection
      | .error _ => { fSelected := false }

/-! ## What the scan finds -/

/-- The outputs that a round looks at. -/
def isConsidered (round : Nat) (output : COutput) : Bool :=
  isEligible nConfMine nConfTheirs output &&
    !(decide (round = 0) && env.isDenominatedAmount output.nValue)

variable {env nTargetValue nConfMine nConfTheirs} {round : Nat}

/-- A coin that is not considered is passed over. -/
theorem scanCoins_skip {output : COutput}
    (skipped : env.isConsidered nConfMine nConfTheirs round output = false)
    (rest : List COutput) (scan : CoinScan) :
    env.scanCoins nTargetValue nConfMine nConfTheirs round (output :: rest) scan =
      env.scanCoins nTargetValue nConfMine nConfTheirs round rest scan := by
  rw [scanCoins]
  by_cases spendable : (!output.fSpendable) = true
  · rw [if_pos spendable]
  by_cases shallow : output.nDepth < (if output.fFromMe then nConfMine else nConfTheirs)
  · rw [if_neg spendable, if_pos shallow]
  rw [if_neg spendable, if_neg shallow]
  dsimp only
  rw [if_pos]
  unfold isConsidered isEligible at skipped
  rw [decide_eq_false shallow] at skipped
  have canSpend : output.fSpendable = true := by simpa using spendable
  simpa [canSpend] using skipped

/-- A coin that is considered is compared with the target. -/
theorem scanCoins_consider {output : COutput}
    (considered : env.isConsidered nConfMine nConfTheirs round output = true)
    (rest : List COutput) (scan : CoinScan) :
    env.scanCoins nTargetValue nConfMine nConfTheirs round (output :: rest) scan =
      if output.nValue = nTargetValue then .error output
      else if output.nValue < withCent nTargetValue then
        env.scanCoins nTargetValue nConfMine nConfTheirs round rest
          { scan with
            vValue := scan.vValue ++ [output]
            nTotalLower := wrapAmount (scan.nTotalLower + output.nValue) }
      else if output.nValue < scan.coinLowestLarger.1 then
        env.scanCoins nTargetValue nConfMine nConfTheirs round rest
          { scan with coinLowestLarger := (output.nValue, some output) }
      else env.scanCoins nTargetValue nConfMine nConfTheirs round rest scan := by
  unfold isConsidered isEligible at considered
  simp only [Bool.and_eq_true, Bool.not_eq_true', decide_eq_false_iff_not] at considered
  obtain ⟨⟨spendable, deep⟩, round⟩ := considered
  rw [scanCoins, if_neg (by simp [spendable]), if_neg deep]
  dsimp only
  rw [if_neg (by simpa using round)]

/-- The considered outputs below the target and a cent. -/
def lowerCoins (env : SelectionEnv) (nTargetValue : CAmount) (nConfMine nConfTheirs : Int)
    (round : Nat) (vCoins : List COutput) : List COutput :=
  vCoins.filter fun output => env.isConsidered nConfMine nConfTheirs round output &&
    decide (output.nValue < withCent nTargetValue)

/-- The early return is of an output equal to the target. -/
theorem scanCoins_error {vCoins : List COutput} {scan : CoinScan} {output : COutput}
    (found : env.scanCoins nTargetValue nConfMine nConfTheirs round vCoins scan = .error output) :
    output ∈ vCoins ∧ env.isConsidered nConfMine nConfTheirs round output = true ∧
      output.nValue = nTargetValue := by
  induction vCoins generalizing scan with
  | nil => cases found
  | cons first rest ih =>
      cases considered : env.isConsidered nConfMine nConfTheirs round first with
      | false =>
          rw [scanCoins_skip considered] at found
          exact (ih found).imp_left (List.mem_cons_of_mem _)
      | true =>
          rw [scanCoins_consider considered] at found
          split at found
          · rename_i equal
            cases found
            exact ⟨List.mem_cons_self, considered, equal⟩
          split at found
          · exact (ih found).imp_left (List.mem_cons_of_mem _)
          split at found
          · exact (ih found).imp_left (List.mem_cons_of_mem _)
          · exact (ih found).imp_left (List.mem_cons_of_mem _)

/-- **The scan** collects the lower outputs, and a larger one if there is one. -/
theorem scanCoins_ok {vCoins : List COutput} {scan after : CoinScan}
    (done : env.scanCoins nTargetValue nConfMine nConfTheirs round vCoins scan = .ok after) :
    after.vValue = scan.vValue ++ lowerCoins env nTargetValue nConfMine nConfTheirs round vCoins ∧
    after.nTotalLower = addValues scan.nTotalLower
      (lowerCoins env nTargetValue nConfMine nConfTheirs round vCoins) ∧
    ((after.coinLowestLarger = scan.coinLowestLarger ∧ ∀ output ∈ vCoins,
        env.isConsidered nConfMine nConfTheirs round output = true →
          output.nValue < withCent nTargetValue ∨ scan.coinLowestLarger.1 ≤ output.nValue) ∨
      ∃ output ∈ vCoins, env.isConsidered nConfMine nConfTheirs round output = true ∧
        withCent nTargetValue ≤ output.nValue ∧
        after.coinLowestLarger = (output.nValue, some output)) := by
  induction vCoins generalizing scan with
  | nil =>
      cases done
      simp [lowerCoins, addValues]
  | cons first rest ih =>
      cases considered : env.isConsidered nConfMine nConfTheirs round first with
      | false =>
          rw [scanCoins_skip considered] at done
          obtain ⟨lower, total, larger⟩ := ih done
          have same : lowerCoins env nTargetValue nConfMine nConfTheirs round (first :: rest) =
              lowerCoins env nTargetValue nConfMine nConfTheirs round rest :=
            List.filter_cons_of_neg (by simp [considered])
          rw [same]
          refine ⟨lower, total, larger.imp ?_ ?_⟩
          · rintro ⟨kept, small⟩
            refine ⟨kept, fun output member wanted => ?_⟩
            rcases List.mem_cons.mp member with rfl | later
            · rw [considered] at wanted
              cases wanted
            · exact small output later wanted
          · rintro ⟨output, later, wanted⟩
            exact ⟨output, List.mem_cons_of_mem _ later, wanted⟩
      | true =>
          rw [scanCoins_consider considered] at done
          split at done
          · cases done
          split at done
          · rename_i small
            obtain ⟨lower, total, larger⟩ := ih done
            have same : lowerCoins env nTargetValue nConfMine nConfTheirs round (first :: rest) =
                first :: lowerCoins env nTargetValue nConfMine nConfTheirs round rest :=
              List.filter_cons_of_pos (by simp [considered, small])
            rw [same]
            refine ⟨?_, ?_, larger.imp ?_ ?_⟩
            · rw [lower, List.append_assoc, List.singleton_append]
            · exact total
            · rintro ⟨kept, below⟩
              refine ⟨kept, fun output member wanted => ?_⟩
              rcases List.mem_cons.mp member with rfl | later
              · exact .inl small
              · exact below output later wanted
            · rintro ⟨output, later, wanted⟩
              exact ⟨output, List.mem_cons_of_mem _ later, wanted⟩
          rename_i large
          have same : lowerCoins env nTargetValue nConfMine nConfTheirs round (first :: rest) =
              lowerCoins env nTargetValue nConfMine nConfTheirs round rest :=
            List.filter_cons_of_neg (by simp [large])
          rw [same]
          split at done
          · obtain ⟨lower, total, larger⟩ := ih done
            refine ⟨lower, total, .inr ?_⟩
            rcases larger with ⟨kept, -⟩ | ⟨output, later, wanted⟩
            · exact ⟨first, List.mem_cons_self, considered, not_lt.mp large, kept⟩
            · exact ⟨output, List.mem_cons_of_mem _ later, wanted⟩
          · rename_i notLess
            obtain ⟨lower, total, larger⟩ := ih done
            refine ⟨lower, total, larger.imp ?_ ?_⟩
            · rintro ⟨kept, below⟩
              refine ⟨kept, fun output member wanted => ?_⟩
              rcases List.mem_cons.mp member with rfl | later
              · exact .inr (not_lt.mp notLess)
              · exact below output later wanted
            · rintro ⟨output, later, wanted⟩
              exact ⟨output, List.mem_cons_of_mem _ later, wanted⟩

/-! ## The result -/

/-- The mask picks some of the outputs, in their order. -/
theorem pick_sublist (mask : List Bool) (outputs : List COutput) :
    (pick mask outputs).Sublist outputs := by
  induction outputs generalizing mask with
  | nil => cases mask <;> exact List.Sublist.refl _
  | cons output rest ih =>
      cases mask with
      | nil => exact List.nil_sublist _
      | cons included mask =>
          rw [pick]
          split
          · exact (ih mask).cons_cons output
          · exact (ih mask).cons output

/-- The sum of the chosen outputs is that of the mask. -/
theorem sum_pick (mask : List Bool) (outputs : List COutput) :
    ((pick mask outputs).map COutput.nValue).sum = maskSum mask (outputs.map COutput.nValue) := by
  induction outputs generalizing mask with
  | nil => cases mask <;> rfl
  | cons output rest ih =>
      cases mask with
      | nil => rfl
      | cons included mask =>
          rw [pick, List.map_cons, maskSum, ← ih]
          split
          · rw [List.map_cons, List.sum_cons]
          · rw [zero_add]

/-- **The selection pays** with some of the given outputs. -/
def Pays (nTargetValue : CAmount) (outputs : List COutput) (selection : SelectedCoins) : Prop :=
  ∃ chosen : List COutput, chosen.Subperm outputs ∧ selection = SelectedCoins.ofOutputs chosen ∧
    nTargetValue ≤ (chosen.map COutput.nValue).sum

/-- The subset, or the larger coin, pays. -/
theorem pays_solveSubset {outputs : List COutput} {scan : CoinScan}
    (cent : nTargetValue ≤ withCent nTargetValue)
    (inRange : InRange (scan.vValue.map COutput.nValue))
    (sorts : ∀ outputs, (env.sortByValue outputs).Perm outputs)
    (lower : scan.vValue.Subperm outputs)
    (total : scan.nTotalLower = (scan.vValue.map COutput.nValue).sum)
    (enough : nTargetValue ≤ scan.nTotalLower)
    (larger : ∀ output, scan.coinLowestLarger.2 = some output →
      output ∈ outputs ∧ nTargetValue ≤ output.nValue) :
    Pays nTargetValue outputs (env.solveSubset nTargetValue scan) := by
  have sum : scan.nTotalLower = ((env.sortByValue scan.vValue).map COutput.nValue).sum := by
    rw [total, ((sorts _).map _).sum_eq]
  have sorted : InRange ((env.sortByValue scan.vValue).map COutput.nValue) := by
    refine ⟨fun value member => inRange.nonneg value ?_, ?_⟩
    · exact ((sorts _).map _).mem_iff.mp member
    · rw [((sorts _).map _).sum_eq]
      exact inRange.small
  -- the mask that is left is one of coins that reach the target
  have subset : ∀ best : List Bool × CAmount,
      BestSubset ((env.sortByValue scan.vValue).map COutput.nValue) nTargetValue best →
        Pays nTargetValue outputs
          (SelectedCoins.ofOutputs (pick best.1 (env.sortByValue scan.vValue))) := by
    intro best known
    refine ⟨_, ?_, rfl, ?_⟩
    · exact ((pick_sublist _ _).subperm.trans (sorts _).subperm).trans lower
    · rw [sum_pick, ← known.sum]
      exact known.reaches
  have single : ∀ output, scan.coinLowestLarger.2 = some output →
      Pays nTargetValue outputs (SelectedCoins.ofOutputs [output]) := by
    intro output found
    obtain ⟨member, reaches⟩ := larger output found
    exact ⟨[output], List.singleton_subperm_iff.mpr member, rfl, by simpa using reaches⟩
  unfold solveSubset
  dsimp only
  rw [sum]
  have reaches : ∀ target, target ≤ scan.nTotalLower → ∀ search,
      BestSubset ((env.sortByValue scan.vValue).map COutput.nValue) target
        (approximateBestSubset ((env.sortByValue scan.vValue).map COutput.nValue)
          ((env.sortByValue scan.vValue).map COutput.nValue).sum target (env.randomBit search)) :=
    fun target fits search => bestSubset_approximateBestSubset sorted (sum ▸ fits) _
  generalize (env.sortByValue scan.vValue).map COutput.nValue = values at *
  generalize found : (if (approximateBestSubset values values.sum nTargetValue
      (env.randomBit 0)).2 ≠ nTargetValue ∧ values.sum ≥ withCent nTargetValue then
    approximateBestSubset values values.sum (withCent nTargetValue) (env.randomBit 1)
    else approximateBestSubset values values.sum nTargetValue (env.randomBit 0)) = best
  have known : BestSubset values nTargetValue best := by
    rw [← found]
    split
    · rename_i again
      obtain ⟨length, masked, reached⟩ := reaches (withCent nTargetValue) (sum ▸ again.2) 1
      exact ⟨length, masked, cent.trans reached⟩
    · exact reaches nTargetValue enough 0
  split
  · rename_i output larger
    split
    · exact single output larger
    · exact subset best known
  · exact subset best known

/-- Some of the outputs are worth no more than all. -/
theorem sum_le_of_subperm {chosen outputs : List COutput} (sub : chosen.Subperm outputs)
    (nonneg : ∀ output ∈ outputs, 0 ≤ output.nValue) :
    (chosen.map COutput.nValue).sum ≤ (outputs.map COutput.nValue).sum := by
  obtain ⟨same, perm, sublist⟩ := sub
  rw [← (perm.map COutput.nValue).sum_eq]
  refine (sublist.map _).sum_le_sum ?_
  intro value member
  obtain ⟨output, inside, rfl⟩ := List.mem_map.mp member
  exact nonneg output inside

/-- No output is negative, the eligible ones are below the first `coinLowestLarger`, and their sum
fits into 64 bits. -/
structure Bounded (nConfMine nConfTheirs : Int) (vCoins : List COutput) : Prop where
  nonneg : ∀ output ∈ vCoins, 0 ≤ output.nValue
  below : ∀ output ∈ vCoins, isEligible nConfMine nConfTheirs output = true →
    output.nValue < 2 ^ 63 - 1
  small : ((vCoins.filter (isEligible nConfMine nConfTheirs)).map COutput.nValue).sum < 2 ^ 63

/-- No selection of the eligible outputs wraps around. -/
theorem Bounded.inRange {vCoins chosen : List COutput}
    (bounded : Bounded nConfMine nConfTheirs vCoins)
    (sub : chosen.Subperm (vCoins.filter (isEligible nConfMine nConfTheirs))) :
    InRange (chosen.map COutput.nValue) := by
  have nonneg : ∀ output ∈ vCoins.filter (isEligible nConfMine nConfTheirs), 0 ≤ output.nValue :=
    fun output member => bounded.nonneg output (List.mem_of_mem_filter member)
  refine ⟨fun value member => ?_, (sum_le_of_subperm sub nonneg).trans_lt bounded.small⟩
  obtain ⟨output, inside, rfl⟩ := List.mem_map.mp member
  exact nonneg output (sub.subset inside)

/-- What is considered is eligible. -/
theorem considered_sublist (env : SelectionEnv) (round : Nat) (vCoins : List COutput) :
    (vCoins.filter (env.isConsidered nConfMine nConfTheirs round)).Sublist
      (vCoins.filter (isEligible nConfMine nConfTheirs)) :=
  List.monotone_filter_right _ fun _ both => (Bool.and_eq_true _ _ ▸ both).1

/-- A round that goes on has found too little and nothing larger. -/
theorem tryDenom_spec {vCoins : List COutput} (cent : nTargetValue ≤ withCent nTargetValue)
    (sorts : ∀ outputs, (env.sortByValue outputs).Perm outputs)
    (bounded : Bounded nConfMine nConfTheirs vCoins) :
    (∃ selection, env.tryDenom nTargetValue nConfMine nConfTheirs round vCoins
        (2 ^ 63 - 1, none) = .ok selection ∧
      Pays nTargetValue (vCoins.filter (env.isConsidered nConfMine nConfTheirs round)) selection) ∨
    ((vCoins.filter (env.isConsidered nConfMine nConfTheirs round)).map COutput.nValue).sum <
        nTargetValue ∧
      env.tryDenom nTargetValue nConfMine nConfTheirs round vCoins (2 ^ 63 - 1, none) =
        if round = 0 then .error (2 ^ 63 - 1, none) else .ok { fSelected := false } := by
  have single : ∀ output ∈ vCoins, env.isConsidered nConfMine nConfTheirs round output = true →
      nTargetValue ≤ output.nValue →
        Pays nTargetValue (vCoins.filter (env.isConsidered nConfMine nConfTheirs round))
          (SelectedCoins.ofOutputs [output]) := by
    intro output member considered reaches
    exact ⟨[output], List.singleton_subperm_iff.mpr (List.mem_filter.mpr ⟨member, considered⟩),
      rfl, by simpa using reaches⟩
  unfold tryDenom
  cases scanned : env.scanCoins nTargetValue nConfMine nConfTheirs round vCoins
      { coinLowestLarger := (2 ^ 63 - 1, none) } with
  | error output =>
      obtain ⟨member, considered, equal⟩ := scanCoins_error scanned
      exact .inl ⟨_, rfl, single output member considered equal.ge⟩
  | ok scan =>
      obtain ⟨lower, total, larger⟩ := scanCoins_ok scanned
      rw [List.nil_append] at lower
      rw [← lower] at total
      have sub : scan.vValue.Subperm
          (vCoins.filter (env.isConsidered nConfMine nConfTheirs round)) := by
        rw [lower]
        refine List.Sublist.subperm ?_
        exact List.monotone_filter_right _ fun output both => (Bool.and_eq_true _ _ ▸ both).1
      have inRange := bounded.inRange (sub.trans (considered_sublist env round vCoins).subperm)
      replace total : scan.nTotalLower = (scan.vValue.map COutput.nValue).sum := by
        rw [total, addValues_eq le_rfl (fun output member => inRange.nonneg _
          (List.mem_map_of_mem member)) (by rw [zero_add]; exact inRange.small), zero_add]
      dsimp only
      split
      · rename_i equal
        exact .inl ⟨_, rfl, scan.vValue, sub, rfl, by rw [← total, equal]⟩
      split
      · rename_i less
        rcases larger with ⟨same, below⟩ | ⟨output, member, considered, reaches, same⟩
        · rw [same]
          refine .inr ⟨?_, ?_⟩
          · have all : vCoins.filter (env.isConsidered nConfMine nConfTheirs round) =
                scan.vValue := by
              rw [lower]
              apply List.filter_congr
              intro output member
              cases considered : env.isConsidered nConfMine nConfTheirs round output with
              | false => rfl
              | true =>
                  have value := bounded.below output member (Bool.and_eq_true _ _ ▸ considered).1
                  rcases below output member considered with small | large
                  · simp [small]
                  · exact absurd value (not_lt.mpr large)
            rw [all, ← total]
            exact less
          · rfl
        · rw [same]
          exact .inl ⟨_, rfl, single output member considered (cent.trans reaches)⟩
      · refine .inl ⟨_, rfl, pays_solveSubset cent inRange sorts sub total (not_lt.mp ‹_›) ?_⟩
        intro output found
        rcases larger with ⟨same, -⟩ | ⟨other, member, considered, reaches, same⟩
        · rw [same] at found
          cases found
        · rw [same] at found
          cases found
          exact ⟨List.mem_filter.mpr ⟨member, considered⟩, cent.trans reaches⟩

/-- The shuffle and the sorts rearrange. -/
structure Permutes (env : SelectionEnv) : Prop where
  randomShuffle : ∀ outputs, (env.randomShuffle outputs).Perm outputs
  sortByDenom : ∀ outputs, (env.sortByDenom outputs).Perm outputs
  sortByValue : ∀ outputs, (env.sortByValue outputs).Perm outputs

/-- The selection pays, or the eligible outputs are too few. -/
theorem selectCoinsMinConf_spec (permutes : env.Permutes)
    (cent : nTargetValue ≤ withCent nTargetValue) {vCoins : List COutput}
    (bounded : Bounded nConfMine nConfTheirs vCoins) :
    Pays nTargetValue (vCoins.filter (isEligible nConfMine nConfTheirs))
        (env.selectCoinsMinConf nTargetValue nConfMine nConfTheirs vCoins) ∨
      (((vCoins.filter (isEligible nConfMine nConfTheirs)).map COutput.nValue).sum <
          nTargetValue ∧
        env.selectCoinsMinConf nTargetValue nConfMine nConfTheirs vCoins =
          { fSelected := false }) := by
  have same : (env.sortByDenom (env.randomShuffle vCoins)).Perm vCoins :=
    (permutes.sortByDenom _).trans (permutes.randomShuffle _)
  have small : Bounded nConfMine nConfTheirs (env.sortByDenom (env.randomShuffle vCoins)) :=
    ⟨fun output member => bounded.nonneg output (same.mem_iff.mp member),
      fun output member => bounded.below output (same.mem_iff.mp member),
      (((same.filter _).map _).sum_eq).trans_lt bounded.small⟩
  have eligible : ∀ round, ((env.sortByDenom (env.randomShuffle vCoins)).filter
      (env.isConsidered nConfMine nConfTheirs round)).Subperm
        (vCoins.filter (isEligible nConfMine nConfTheirs)) := by
    intro round
    exact (considered_sublist env round _).subperm.trans (same.filter _).subperm
  have all : (env.sortByDenom (env.randomShuffle vCoins)).filter
      (env.isConsidered nConfMine nConfTheirs 1) =
        (env.sortByDenom (env.randomShuffle vCoins)).filter
          (isEligible nConfMine nConfTheirs) := by
    apply List.filter_congr
    intro output _
    simp [isConsidered]
  unfold selectCoinsMinConf
  dsimp only
  rcases tryDenom_spec cent permutes.sortByValue small with
    ⟨selection, done, chosen, sub, found⟩ | ⟨-, goesOn⟩
  · rw [done]
    exact .inl ⟨chosen, sub.trans (eligible 0), found⟩
  rw [goesOn, if_pos rfl]
  dsimp only
  rcases tryDenom_spec cent permutes.sortByValue small with
    ⟨selection, done, chosen, sub, found⟩ | ⟨less, fails⟩
  · rw [done]
    exact .inl ⟨chosen, sub.trans (eligible 1), found⟩
  · rw [fails, if_neg Nat.one_ne_zero]
    rw [all, ((same.filter _).map _).sum_eq] at less
    exact .inr ⟨less, rfl⟩

/-- Distinct outputs are given back by the set of their coins. -/
theorem perm_filter_coin {chosen vCoins : List COutput} (sub : chosen.Subperm vCoins)
    (distinct : (vCoins.map COutput.coin).Nodup) :
    (vCoins.filter fun output =>
      decide (output.coin ∈ (chosen.map COutput.coin).toFinset)).Perm chosen := by
  have nodup := List.Nodup.of_map _ distinct
  obtain ⟨same, perm, sublist⟩ := sub
  have chosenNodup : chosen.Nodup := perm.nodup_iff.mp (nodup.sublist sublist)
  rw [List.perm_ext_iff_of_nodup (nodup.filter _) chosenNodup]
  intro output
  rw [List.mem_filter, decide_eq_true_eq, List.mem_toFinset]
  constructor
  · rintro ⟨stored, taken⟩
    obtain ⟨other, inside, coin⟩ := List.mem_map.mp taken
    have otherStored := sublist.subset (perm.mem_iff.mpr inside)
    rw [← List.inj_on_of_nodup_map distinct otherStored stored coin]
    exact inside
  · intro inside
    exact ⟨sublist.subset (perm.mem_iff.mpr inside), List.mem_map_of_mem inside⟩

/-- **Coin selection is sound and complete** where no sum leaves 64 bits. A target is paid if and
only if the eligible outputs suffice, and then with eligible outputs whose values are the returned
one. -/
theorem selectCoinsMinConf_iff (env : SelectionEnv) (permutes : env.Permutes)
    (nTargetValue : CAmount) (positive : 0 < nTargetValue) (cent : nTargetValue + CENT < 2 ^ 63)
    (nConfMine nConfTheirs : Int) (vCoins : List COutput)
    (distinct : (vCoins.map COutput.coin).Nodup)
    (bounded : Bounded nConfMine nConfTheirs vCoins) :
    ((env.selectCoinsMinConf nTargetValue nConfMine nConfTheirs vCoins).fSelected = true ↔
      nTargetValue ≤
        ((vCoins.filter (isEligible nConfMine nConfTheirs)).map COutput.nValue).sum) ∧
    ((env.selectCoinsMinConf nTargetValue nConfMine nConfTheirs vCoins).fSelected = true →
      (∀ coin ∈ (env.selectCoinsMinConf nTargetValue nConfMine nConfTheirs vCoins).setCoinsRet,
        ∃ output ∈ vCoins, output.coin = coin ∧
          isEligible nConfMine nConfTheirs output = true) ∧
      (env.selectCoinsMinConf nTargetValue nConfMine nConfTheirs vCoins).nValueRet =
        ((vCoins.filter fun output => decide (output.coin ∈ (env.selectCoinsMinConf nTargetValue
          nConfMine nConfTheirs vCoins).setCoinsRet)).map COutput.nValue).sum ∧
      nTargetValue ≤
        (env.selectCoinsMinConf nTargetValue nConfMine nConfTheirs vCoins).nValueRet) := by
  have hundredth : 0 ≤ CENT := by decide
  have above : nTargetValue ≤ withCent nTargetValue := by
    have low : -2 ^ 63 ≤ nTargetValue + CENT :=
      le_trans (by decide) (add_nonneg positive.le hundredth)
    rw [withCent, wrapAmount_of_bounds low cent]
    exact le_add_of_nonneg_right hundredth
  rcases selectCoinsMinConf_spec permutes above bounded with
    ⟨chosen, sub, selected, reaches⟩ | ⟨less, fails⟩
  · obtain ⟨nonneg, small⟩ := bounded.inRange sub
    have returned : (SelectedCoins.ofOutputs chosen).nValueRet =
        (chosen.map COutput.nValue).sum := by
      show addValues 0 chosen = _
      rw [addValues_eq le_rfl (fun output member => nonneg _ (List.mem_map_of_mem member))
        (by rwa [zero_add]), zero_add]
    rw [selected]
    refine ⟨iff_of_true rfl ?_, fun _ => ⟨?_, ?_, reaches.trans_eq returned.symm⟩⟩
    · refine reaches.trans (sum_le_of_subperm sub ?_)
      exact fun output member => bounded.nonneg output (List.mem_of_mem_filter member)
    · intro coin taken
      obtain ⟨output, inside, rfl⟩ := List.mem_map.mp (List.mem_toFinset.mp taken)
      obtain ⟨stored, eligible⟩ := List.mem_filter.mp (sub.subset inside)
      exact ⟨output, stored, rfl, eligible⟩
    · have given := perm_filter_coin (sub.trans List.filter_sublist.subperm) distinct
      rw [returned]
      exact ((given.map COutput.nValue).sum_eq).symm
  · rw [fails]
    exact ⟨iff_of_false Bool.false_ne_true (not_le.mpr less), fun selected => by cases selected⟩

/-! ## An example -/

/-- Nothing is rearranged, every coin is taken at random, and no amount is denominated. -/
def plainEnv : SelectionEnv where
  randomShuffle := id
  sortByDenom := id
  sortByValue := id
  randomBit _ _ _ := true
  isDenominatedAmount _ := false

/-- The choices of the example leave the order. -/
theorem permutes_plainEnv : plainEnv.Permutes :=
  ⟨List.Perm.refl, List.Perm.refl, List.Perm.refl⟩

/-- Two of three eligible outputs pay, and a fourth one is not deep enough. -/
def fourOutputs : List COutput :=
  [⟨1, 0, 3 * COIN, 10, true, false⟩, ⟨2, 0, 2 * COIN, 10, true, false⟩,
    ⟨3, 0, 1 * COIN, 10, true, true⟩, ⟨3, 1, 9 * COIN, 1, true, false⟩]

/-- Four outputs pay six coins. -/
theorem selectCoinsMinConf_fourOutputs :
    (plainEnv.selectCoinsMinConf (6 * COIN) 1 6 fourOutputs).fSelected = true ∧
      6 * COIN ≤ (plainEnv.selectCoinsMinConf (6 * COIN) 1 6 fourOutputs).nValueRet := by
  obtain ⟨enough, pays⟩ := selectCoinsMinConf_iff plainEnv permutes_plainEnv (6 * COIN) (by decide)
    (by decide) 1 6 fourOutputs (by decide) ⟨by decide, by decide, by decide⟩
  have selected := enough.mpr (by decide)
  exact ⟨selected, (pays selected).2.2⟩

/-- One output of the greatest amount is not found for a target of one. For a target whose sum with
a cent wraps around, an output of half as much is taken. -/
theorem not_selectCoinsMinConf_iff :
    (¬ ∀ (env : SelectionEnv) (nTargetValue : CAmount) (nConfMine nConfTheirs : Int)
      (vCoins : List COutput), env.Permutes → 0 < nTargetValue → nTargetValue < 2 ^ 63 →
      (vCoins.map COutput.coin).Nodup →
      (∀ output ∈ vCoins, 0 ≤ output.nValue ∧ output.nValue < 2 ^ 63) →
      ((env.selectCoinsMinConf nTargetValue nConfMine nConfTheirs vCoins).fSelected = true ↔
        nTargetValue ≤
          ((vCoins.filter (isEligible nConfMine nConfTheirs)).map COutput.nValue).sum)) ∧
    (plainEnv.selectCoinsMinConf (2 ^ 63 - 1) 1 6 [⟨1, 0, 2 ^ 62, 10, true, false⟩]).fSelected =
      true ∧
    (plainEnv.selectCoinsMinConf (2 ^ 63 - 1) 1 6 [⟨1, 0, 2 ^ 62, 10, true, false⟩]).nValueRet =
      2 ^ 62 := by
  refine ⟨fun all => ?_, by decide, by decide⟩
  have one := all plainEnv 1 1 6 [⟨1, 0, 2 ^ 63 - 1, 10, true, false⟩] permutes_plainEnv (by decide)
    (by decide) (by decide) (by decide)
  exact absurd (one.mpr (by decide)) (by decide)

end SelectionEnv

end GiantCore
