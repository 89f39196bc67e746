import GiantCore.Masternode.Masternode

/-! # A random masternode

`FindRandomNotInVec` counts down to a masternode that is not excluded. The count starts at a random
number below an estimate of the candidates, the result of `CountEnabled` less the number of excluded
inputs. The protocol version of the query is passed to `CountEnabled` as the level, so that the
estimate is about no level that there is, and it is unsigned. The masternode is found exactly for
the estimates of `FindsRandom.iff_fits`.
-/

namespace GiantCore

/-! ## Random numbers -/

/-- The draws that `GetRand` does not repeat. -/
def AcceptedDraw (nMax nRand : Nat) : Prop := nMax = 0 ∨ nRand < (2 ^ 64 - 1) / nMax * nMax

/-- `GetRand`, with the draw that it accepts. -/
def getRand (nMax nRand : Nat) : Nat := if nMax = 0 then 0 else nRand % nMax

/-- What `GetRandInt` passes on, an `int` as an unsigned number. -/
def randMax (nMax : Int) : Nat := (storeInt nMax % 2 ^ 64).toNat

def getRandInt (nMax : Int) (nRand : Nat) : Int := storeInt (getRand (randMax nMax) nRand)

theorem randMax_lt (nMax : Int) : randMax nMax < 2 ^ 64 := by
  unfold randMax
  have small := Int.emod_lt_of_pos (storeInt nMax) (by decide : (0 : Int) < 2 ^ 64)
  omega

theorem acceptedDraw_zero {nMax : Nat} (small : nMax < 2 ^ 64) : AcceptedDraw nMax 0 := by
  rcases Nat.eq_zero_or_pos nMax with zero | positive
  · exact .inl zero
  · have times : 1 ≤ (2 ^ 64 - 1) / nMax := (Nat.one_le_div_iff positive).mpr (by omega)
    exact .inr (Nat.mul_pos times positive)

/-- Every number below the bound can come. -/
theorem exists_getRandInt_iff {nMax value : Int} :
    (∃ nRand, AcceptedDraw (randMax nMax) nRand ∧ getRandInt nMax nRand = value) ↔
      ∃ below : Nat, (below < randMax nMax ∨ below = 0) ∧ storeInt below = value := by
  have small := randMax_lt nMax
  constructor
  · rintro ⟨nRand, -, rfl⟩
    refine ⟨getRand (randMax nMax) nRand, ?_, rfl⟩
    unfold getRand
    split
    · exact .inr rfl
    · exact .inl (Nat.mod_lt _ (by omega))
  · rintro ⟨below, fits, rfl⟩
    by_cases zero : randMax nMax = 0
    · refine ⟨0, .inl zero, ?_⟩
      obtain rfl : below = 0 := by omega
      rw [getRandInt, getRand, if_pos zero]
    · have under : below < randMax nMax := by omega
      have times : 1 ≤ (2 ^ 64 - 1) / randMax nMax :=
        (Nat.one_le_div_iff (by omega)).mpr (by omega)
      refine ⟨below, .inr ?_, ?_⟩
      · exact under.trans_le (Nat.le_mul_of_pos_left _ times)
      · rw [getRandInt, getRand, if_neg zero, Nat.mod_eq_of_lt under]

/-! ## Counting down -/

/-- The loop of `FindRandomNotInVec` from one entry on: the place of the entry it returns. The least
`int` is counted down to the greatest one. -/
def countDown (candidate : CMasternode → Bool) : Int → List CMasternode → Option Nat
  | _, [] => none
  | rand, mn :: rest =>
      if !candidate mn then (countDown candidate rand rest).map (· + 1)
      else if storeInt (rand - 1) < 1 then some 0
      else (countDown candidate (storeInt (rand - 1)) rest).map (· + 1)

/-- Any other `int` is counted down by one. -/
theorem storeInt_pred {rand : Int} (low : -2 ^ 31 < rand) (high : rand < 2 ^ 31) :
    storeInt (rand - 1) = rand - 1 := storeInt_of_bounds (by omega) (by omega)

theorem countDown_eq_some_iff {candidate : CMasternode → Bool} {rand : Int}
    {mns : List CMasternode} {place : Nat} :
    countDown candidate rand mns = some place ↔
      (∃ mn, mns[place]? = some mn ∧ candidate mn = true) ∧
        (mns.take place).countP candidate = (storeInt (rand - 1)).toNat := by
  induction mns generalizing rand place with
  | nil => simp [countDown]
  | cons mn rest ih =>
      rw [countDown]
      cases wanted : candidate mn with
      | false =>
          rw [Bool.not_false, if_pos rfl, Option.map_eq_some_iff]
          cases place with
          | zero => simp [wanted]
          | succ place => simp [ih, wanted]
      | true =>
          rw [Bool.not_true, if_neg Bool.false_ne_true]
          cases place with
          | zero =>
              split
              · rename_i last
                refine iff_of_true rfl ⟨⟨mn, rfl, wanted⟩, ?_⟩
                simp only [List.take_zero, List.countP_nil]
                omega
              · rename_i more
                rw [Option.map_eq_some_iff]
                simp only [List.getElem?_cons_zero, List.take_zero, List.countP_nil]
                refine iff_of_false (by simp) ?_
                rintro ⟨-, earlier⟩
                omega
          | succ place =>
              split
              · rename_i last
                simp only [List.take_succ_cons, List.countP_cons_of_pos wanted]
                refine iff_of_false (by simp) ?_
                rintro ⟨-, earlier⟩
                omega
              · rename_i more
                rw [Option.map_eq_some_iff]
                simp only [List.getElem?_cons_succ, List.take_succ_cons,
                  List.countP_cons_of_pos wanted, Nat.add_right_cancel_iff, exists_eq_right, ih]
                rw [storeInt_pred (by omega) (storeInt_bounds _).2]
                refine and_congr_right fun _ => ?_
                omega

/-- There are places with any smaller number of candidates in front. -/
theorem exists_place {candidate : CMasternode → Bool} {mns : List CMasternode} {before : Nat}
    (enough : before < mns.countP candidate) :
    ∃ place, (∃ mn, mns[place]? = some mn ∧ candidate mn = true) ∧
      (mns.take place).countP candidate = before := by
  induction mns generalizing before with
  | nil => simp at enough
  | cons mn rest ih =>
      cases wanted : candidate mn with
      | false =>
          rw [List.countP_cons_of_neg (by simp [wanted])] at enough
          obtain ⟨place, here, counted⟩ := ih enough
          refine ⟨place + 1, here, ?_⟩
          rw [List.take_succ_cons, List.countP_cons_of_neg (by simp [wanted]), counted]
      | true =>
          rw [List.countP_cons_of_pos wanted] at enough
          cases before with
          | zero => exact ⟨0, ⟨mn, rfl, wanted⟩, rfl⟩
          | succ before =>
              obtain ⟨place, here, counted⟩ := ih (Nat.lt_of_succ_lt_succ enough)
              refine ⟨place + 1, here, ?_⟩
              rw [List.take_succ_cons, List.countP_cons_of_pos wanted, counted]

/-- In front of a candidate there are fewer candidates than there are. -/
theorem countP_take_lt {candidate : CMasternode → Bool} {mns : List CMasternode} {place : Nat}
    {mn : CMasternode} (here : mns[place]? = some mn) (wanted : candidate mn = true) :
    (mns.take place).countP candidate < mns.countP candidate := by
  obtain ⟨inside, rfl⟩ := List.getElem?_eq_some_iff.mp here
  have split := congrArg (List.countP candidate) (List.take_append_drop place mns)
  rw [List.countP_append, List.drop_eq_getElem_cons inside,
    List.countP_cons_of_pos wanted] at split
  omega

/-- The count ends at a candidate unless it starts too high. -/
theorem countDown_ne_none_iff {candidate : CMasternode → Bool} {rand : Int}
    {mns : List CMasternode} :
    countDown candidate rand mns ≠ none ↔
      (storeInt (rand - 1)).toNat < mns.countP candidate := by
  rw [Option.ne_none_iff_exists']
  constructor
  · rintro ⟨place, found⟩
    obtain ⟨⟨mn, here, wanted⟩, counted⟩ := countDown_eq_some_iff.mp found
    rw [← counted]
    exact countP_take_lt here wanted
  · intro enough
    obtain ⟨place, here, counted⟩ := exists_place enough
    exact ⟨place, countDown_eq_some_iff.mpr ⟨here, counted⟩⟩

/-! ## The query -/

namespace CMasternodeMan

variable (node : NodeContext) (mnodeman : CMasternodeMan) (level : Int)
  (vecToExclude : List CTxIn) (protocolVersion : Int)

/-- The tests in the loop. The entries have been checked by `CountEnabled`. -/
def isCandidate (mn : CMasternode) : Bool :=
  !(level != Level.unknown.toInt && (mn.getLevel node).toInt != level) &&
    !(decide (mn.protocolVersion < protocolVersion) || !mn.isEnabled) &&
    !vecToExclude.any fun usedVin => mn.vin.prevout == usedVin.prevout

/-- The default of the protocol version. -/
def queryProtocol : Int := if protocolVersion = -1 then node.activeProtocol else protocolVersion

/-- `nCountEnabled - vecToExclude.size()`, before it is an unsigned number. -/
def estimate : Int :=
  storeInt (mnodeman.countEnabled node protocolVersion (-1)).2 - vecToExclude.length

/-- `FindRandomNotInVec` with a random draw: the place of the masternode in the list. -/
def findRandomNotInVec (nRand : Nat) : CMasternodeMan × Option Nat :=
  let protocolVersion := queryProtocol node protocolVersion
  let checked := (mnodeman.countEnabled node protocolVersion (-1)).1
  let estimate := mnodeman.estimate node vecToExclude protocolVersion
  if estimate % 2 ^ 64 < 1 then (checked, none)
  else (checked, countDown (isCandidate node level vecToExclude protocolVersion)
    (getRandInt estimate nRand) checked.vMasternodes)

/-- The masternode is enabled, recent, of the level and not excluded. -/
structure Wanted (mn : CMasternode) : Prop where
  enabled : mn.isEnabled = true
  recent : queryProtocol node protocolVersion ≤ mn.protocolVersion
  ofLevel : level = Level.unknown.toInt ∨ (mn.getLevel node).toInt = level
  notExcluded : ∀ usedVin ∈ vecToExclude, mn.vin.prevout ≠ usedVin.prevout

/-- **A masternode is found if there is one**, only such a one, and each of them for some draw. -/
structure FindsRandom : Prop where
  wanted : ∀ nRand place, (mnodeman.findRandomNotInVec node level vecToExclude protocolVersion
    nRand).2 = some place → ∃ mn, (mnodeman.checkAll node).vMasternodes[place]? = some mn ∧
      Wanted node level vecToExclude protocolVersion mn
  found : (∃ mn ∈ (mnodeman.checkAll node).vMasternodes,
      Wanted node level vecToExclude protocolVersion mn) →
    ∀ nRand, AcceptedDraw (randMax (mnodeman.estimate node vecToExclude
      (queryProtocol node protocolVersion))) nRand →
      (mnodeman.findRandomNotInVec node level vecToExclude protocolVersion nRand).2 ≠ none
  each : ∀ place mn, (mnodeman.checkAll node).vMasternodes[place]? = some mn →
    Wanted node level vecToExclude protocolVersion mn →
    ∃ nRand, AcceptedDraw (randMax (mnodeman.estimate node vecToExclude
      (queryProtocol node protocolVersion))) nRand ∧
      (mnodeman.findRandomNotInVec node level vecToExclude protocolVersion nRand).2 = some place

/-- **The estimate fits the candidates.** It is one more than their number. A single one may also be
estimated as one, or as a multiple of `2 ^ 32` that is not one of `2 ^ 64`. The random number of a
negative estimate is any `int`, and counts down to each of `2 ^ 31` candidates. -/
def Fits (estimate : Int) (candidates : Nat) : Prop :=
  candidates = 0 ∨ ¬ estimate % 2 ^ 64 < 1 ∧
    (storeInt estimate = candidates + 1 ∨
      (candidates = 1 ∧ 0 ≤ storeInt estimate ∧ storeInt estimate ≤ 1) ∨
      (candidates = 2 ^ 31 ∧ storeInt estimate < 0))

end CMasternodeMan

/-- A number can come from a bound that is not negative if it is below it, or zero. -/
theorem exists_getRandInt_of_nonneg {nMax value : Int} (nonneg : 0 ≤ storeInt nMax) :
    (∃ nRand, AcceptedDraw (randMax nMax) nRand ∧ getRandInt nMax nRand = value) ↔
      value = 0 ∨ (0 ≤ value ∧ value < storeInt nMax) := by
  obtain ⟨-, high⟩ := storeInt_bounds nMax
  have max : (randMax nMax : Int) = storeInt nMax := by
    rw [randMax, Int.emod_eq_of_lt nonneg (by omega)]
    omega
  rw [exists_getRandInt_iff]
  constructor
  · rintro ⟨below, fits, rfl⟩
    rw [storeInt_of_bounds (by omega) (by omega)]
    omega
  · intro fits
    refine ⟨value.toNat, by omega, ?_⟩
    rw [storeInt_of_bounds (by omega) (by omega)]
    omega

/-- Every `int` can come from a negative bound. -/
theorem exists_getRandInt_of_neg {nMax value : Int} (negative : storeInt nMax < 0) :
    (∃ nRand, AcceptedDraw (randMax nMax) nRand ∧ getRandInt nMax nRand = value) ↔
      -2 ^ 31 ≤ value ∧ value < 2 ^ 31 := by
  obtain ⟨low, -⟩ := storeInt_bounds nMax
  have max : (randMax nMax : Int) = storeInt nMax + 2 ^ 64 := by
    unfold randMax
    omega
  rw [exists_getRandInt_iff]
  constructor
  · rintro ⟨below, -, rfl⟩
    exact storeInt_bounds _
  · rintro ⟨least, most⟩
    by_cases sign : 0 ≤ value
    · refine ⟨value.toNat, by omega, ?_⟩
      rw [storeInt_of_bounds (by omega) (by omega)]
      omega
    · refine ⟨(value + 2 ^ 32).toNat, by omega, ?_⟩
      have cast : (((value + 2 ^ 32).toNat : Nat) : Int) = value + (2 ^ 32 : Nat) := by omega
      rw [cast, storeInt, Int.add_bmod_right]
      exact storeInt_of_bounds least most

/-- The random numbers of an estimate count down to each candidate and to none that is not there. -/
theorem draws_iff_fits {estimate : Int} {candidates : Nat} (some : 0 < candidates) :
    ((∀ nRand, AcceptedDraw (randMax estimate) nRand →
        (storeInt (getRandInt estimate nRand - 1)).toNat < candidates) ∧
      ∀ before < candidates, ∃ nRand, AcceptedDraw (randMax estimate) nRand ∧
        (storeInt (getRandInt estimate nRand - 1)).toNat = before) ↔
      storeInt estimate = candidates + 1 ∨
        (candidates = 1 ∧ 0 ≤ storeInt estimate ∧ storeInt estimate ≤ 1) ∨
        (candidates = 2 ^ 31 ∧ storeInt estimate < 0) := by
  have bounds := storeInt_bounds estimate
  have draws : ((∀ nRand, AcceptedDraw (randMax estimate) nRand →
        (storeInt (getRandInt estimate nRand - 1)).toNat < candidates) ∧
      ∀ before < candidates, ∃ nRand, AcceptedDraw (randMax estimate) nRand ∧
        (storeInt (getRandInt estimate nRand - 1)).toNat = before) ↔
      (∀ rand, (∃ nRand, AcceptedDraw (randMax estimate) nRand ∧
          getRandInt estimate nRand = rand) → (storeInt (rand - 1)).toNat < candidates) ∧
        ∀ before < candidates, ∃ rand, (∃ nRand, AcceptedDraw (randMax estimate) nRand ∧
          getRandInt estimate nRand = rand) ∧ (storeInt (rand - 1)).toNat = before := by
    refine and_congr ?_ (forall₂_congr fun before _ => ?_)
    · exact ⟨fun below rand ⟨nRand, accepted, same⟩ => same ▸ below nRand accepted,
        fun below nRand accepted => below _ ⟨nRand, accepted, rfl⟩⟩
    · exact ⟨fun ⟨nRand, accepted, same⟩ => ⟨_, ⟨nRand, accepted, rfl⟩, same⟩,
        fun ⟨rand, ⟨nRand, accepted, drawn⟩, same⟩ => ⟨nRand, accepted, drawn ▸ same⟩⟩
  rw [draws]
  rcases lt_or_ge (storeInt estimate) 0 with negative | nonneg
  · simp only [exists_getRandInt_of_neg negative]
    have least : storeInt (-2 ^ 31 - 1) = 2 ^ 31 - 1 := by decide
    constructor
    · rintro ⟨below, each⟩
      have most := below (-2 ^ 31) (by omega)
      rw [least] at most
      obtain ⟨rand, -, last⟩ := each (candidates - 1) (by omega)
      have high := (storeInt_bounds (rand - 1)).2
      omega
    · intro fits
      have exactly : candidates = 2 ^ 31 := by omega
      refine ⟨fun rand _ => ?_, fun before inside => ?_⟩
      · have high := (storeInt_bounds (rand - 1)).2
        omega
      by_cases last : before = 2 ^ 31 - 1
      · exact ⟨-2 ^ 31, by omega, by rw [least]; omega⟩
      · refine ⟨before + 1, by omega, ?_⟩
        rw [storeInt_pred (by omega) (by omega)]
        omega
  · simp only [exists_getRandInt_of_nonneg nonneg]
    have pred : ∀ rand : Int, rand = 0 ∨ (0 ≤ rand ∧ rand < storeInt estimate) →
        storeInt (rand - 1) = rand - 1 := fun rand range => storeInt_pred (by omega) (by omega)
    constructor
    · rintro ⟨below, each⟩
      obtain ⟨rand, range, last⟩ := each (candidates - 1) (by omega)
      rw [pred rand range] at last
      have most : 0 < storeInt estimate → (storeInt estimate - 1 - 1).toNat < candidates := by
        intro positive
        have fits := below (storeInt estimate - 1) (by omega)
        rwa [pred _ (by omega)] at fits
      omega
    · intro fits
      refine ⟨fun rand range => ?_, fun before inside => ?_⟩
      · rw [pred rand range]
        omega
      by_cases first : before = 0
      · exact ⟨0, .inl rfl, by rw [pred 0 (.inl rfl)]; omega⟩
      · refine ⟨before + 1, by omega, ?_⟩
        rw [pred _ (by omega)]
        omega

namespace CMasternodeMan

variable {node : NodeContext} {mnodeman : CMasternodeMan} {level : Int}
  {vecToExclude : List CTxIn} {protocolVersion : Int}

theorem isCandidate_iff {mn : CMasternode} :
    isCandidate node level vecToExclude (queryProtocol node protocolVersion) mn = true ↔
      Wanted node level vecToExclude protocolVersion mn := by
  have levels : (!(level != Level.unknown.toInt && (mn.getLevel node).toInt != level)) = true ↔
      level = Level.unknown.toInt ∨ (mn.getLevel node).toInt = level := by
    simp [or_iff_not_imp_left]
  unfold isCandidate
  rw [Bool.and_eq_true, Bool.and_eq_true, levels]
  simp only [Bool.not_eq_true', Bool.or_eq_false_iff, decide_eq_false_iff_not, not_lt,
    Bool.not_eq_false', List.any_eq_false, beq_iff_eq]
  constructor
  · rintro ⟨⟨ofLevel, recent, enabled⟩, notExcluded⟩
    exact ⟨enabled, recent, ofLevel, notExcluded⟩
  · rintro ⟨enabled, recent, ofLevel, notExcluded⟩
    exact ⟨⟨ofLevel, recent, enabled⟩, notExcluded⟩

/-- The masternodes that the query should choose from. -/
def candidates (node : NodeContext) (mnodeman : CMasternodeMan) (level : Int)
    (vecToExclude : List CTxIn) (protocolVersion : Int) : Nat :=
  (mnodeman.checkAll node).vMasternodes.countP
    (isCandidate node level vecToExclude (queryProtocol node protocolVersion))

theorem findRandomNotInVec_of_none (nRand : Nat)
    (none : mnodeman.estimate node vecToExclude (queryProtocol node protocolVersion) % 2 ^ 64 < 1) :
    (mnodeman.findRandomNotInVec node level vecToExclude protocolVersion nRand).2 = .none := by
  simp only [findRandomNotInVec, if_pos none]

theorem findRandomNotInVec_of_some (nRand : Nat)
    (some :
      ¬ mnodeman.estimate node vecToExclude (queryProtocol node protocolVersion) % 2 ^ 64 < 1) :
    (mnodeman.findRandomNotInVec node level vecToExclude protocolVersion nRand).2 =
      countDown (isCandidate node level vecToExclude (queryProtocol node protocolVersion))
        (getRandInt (mnodeman.estimate node vecToExclude
          (queryProtocol node protocolVersion)) nRand)
        (mnodeman.checkAll node).vMasternodes := by
  simp only [findRandomNotInVec, if_neg some, fst_countEnabled]

/-- What is found is wanted. -/
theorem wanted_of_findRandomNotInVec {nRand place : Nat}
    (found : (mnodeman.findRandomNotInVec node level vecToExclude protocolVersion nRand).2 =
      some place) :
    ∃ mn, (mnodeman.checkAll node).vMasternodes[place]? = some mn ∧
      Wanted node level vecToExclude protocolVersion mn := by
  by_cases none : mnodeman.estimate node vecToExclude
      (queryProtocol node protocolVersion) % 2 ^ 64 < 1
  · rw [findRandomNotInVec_of_none nRand none] at found
    cases found
  · rw [findRandomNotInVec_of_some nRand none, countDown_eq_some_iff] at found
    obtain ⟨⟨mn, here, wanted⟩, -⟩ := found
    exact ⟨mn, here, isCandidate_iff.mp wanted⟩

/-- **A random masternode is found** whenever there is one, and each of them for some draw, if and
only if the estimate fits the candidates. -/
theorem findsRandom_iff_fits (node : NodeContext) (mnodeman : CMasternodeMan) (level : Int)
    (vecToExclude : List CTxIn) (protocolVersion : Int) :
    mnodeman.FindsRandom node level vecToExclude protocolVersion ↔
      Fits (mnodeman.estimate node vecToExclude (queryProtocol node protocolVersion))
        (mnodeman.candidates node level vecToExclude protocolVersion) := by
  set estimate := mnodeman.estimate node vecToExclude (queryProtocol node protocolVersion)
  have some_iff : 0 < mnodeman.candidates node level vecToExclude protocolVersion ↔
      ∃ mn ∈ (mnodeman.checkAll node).vMasternodes,
        Wanted node level vecToExclude protocolVersion mn := by
    simp only [candidates, List.countP_pos_iff, isCandidate_iff]
  unfold Fits
  rcases Nat.eq_zero_or_pos (mnodeman.candidates node level vecToExclude protocolVersion)
    with empty | some
  · have nobody := fun exists_ => (some_iff.mpr exists_).ne' empty
    refine iff_of_true ⟨fun nRand place => wanted_of_findRandomNotInVec,
      fun exists_ => absurd exists_ nobody, ?_⟩ (.inl empty)
    intro place mn here wanted
    exact absurd ⟨mn, List.mem_of_getElem? here, wanted⟩ nobody
  rw [or_iff_right some.ne', ← draws_iff_fits some]
  constructor
  · intro finds
    have nonzero : ¬ estimate % 2 ^ 64 < 1 := by
      intro none
      exact finds.found (some_iff.mp some) 0 (acceptedDraw_zero (randMax_lt _))
        (findRandomNotInVec_of_none 0 none)
    refine ⟨nonzero, ?_, ?_⟩
    · intro nRand accepted
      have found := finds.found (some_iff.mp some) nRand accepted
      rw [findRandomNotInVec_of_some nRand nonzero] at found
      exact countDown_ne_none_iff.mp found
    · intro before fewer
      obtain ⟨place, ⟨mn, here, wanted⟩, counted⟩ := exists_place fewer
      obtain ⟨nRand, accepted, found⟩ := finds.each place mn here (isCandidate_iff.mp wanted)
      rw [findRandomNotInVec_of_some nRand nonzero, countDown_eq_some_iff, counted] at found
      exact ⟨nRand, accepted, found.2.symm⟩
  · rintro ⟨nonzero, below, each⟩
    refine ⟨fun nRand place => wanted_of_findRandomNotInVec, ?_, ?_⟩
    · intro _ nRand accepted
      rw [findRandomNotInVec_of_some nRand nonzero]
      exact countDown_ne_none_iff.mpr (below nRand accepted)
    · intro place mn here wanted
      have candidate := isCandidate_iff.mpr wanted
      obtain ⟨nRand, accepted, drawn⟩ := each _ (countP_take_lt here candidate)
      refine ⟨nRand, accepted, ?_⟩
      rw [findRandomNotInVec_of_some nRand nonzero, countDown_eq_some_iff]
      exact ⟨⟨mn, here, candidate⟩, drawn.symm⟩

end CMasternodeMan

/-- Two enabled masternodes, no exclusions and the active protocol. -/
theorem not_findsRandom :
    ¬ ∀ (node : NodeContext) (mnodeman : CMasternodeMan) (level : Int)
      (vecToExclude : List CTxIn) (protocolVersion : Int),
        mnodeman.FindsRandom node level vecToExclude protocolVersion := by
  intro always
  have finds := always (NodeContext.mainNode 400000)
    ⟨[CMasternode.enabledNode 1 (5000 * COIN), CMasternode.enabledNode 2 (5000 * COIN)]⟩
    Level.unknown.toInt [] 70720
  refine finds.found ⟨CMasternode.enabledNode 1 (5000 * COIN), by decide, ?_⟩ 0
    (acceptedDraw_zero (randMax_lt _)) (by decide +kernel)
  exact ⟨by decide, by decide, .inl rfl, by simp⟩

end GiantCore
