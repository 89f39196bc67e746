import GiantCore.Masternode.VoterRank

/-! # Ranks and the order of the masternodes

`GetMasternodeRank` sorts compact scores, which keep 23 bits of a score of 256, and `std::sort`
leaves the order of equal ones open. `GetNextMasternodeInQueueForPayment` compares the scores
themselves. Nodes that have the masternodes in different orders agree on all ranks exactly if no
two ranked masternodes have the same compact score (`rank_orderIndependent_iff`).
-/

namespace GiantCore

/-- `std::sort` by descending score, with equal scores in any order. -/
structure SortsByScore (sort : List (Int × CTxIn) → List (Int × CTxIn)) : Prop where
  perm : ∀ scores, (sort scores).Perm scores
  sorted : ∀ scores, (sort scores).Pairwise fun first second => second.1 ≤ first.1

/-- The node with another sort. -/
def NodeContext.withSort (node : NodeContext)
    (sort : List (Int × CTxIn) → List (Int × CTxIn)) : NodeContext :=
  { node with sortByScore := sort }

/-- The sort of short vectors, which keeps equal scores in order. -/
def insertionSortByScore (scores : List (Int × CTxIn)) : List (Int × CTxIn) :=
  scores.insertionSort fun first second => second.1 ≤ first.1

theorem sortsByScore_insertionSort : SortsByScore insertionSortByScore := by
  have total : Std.Total fun first second : Int × CTxIn => second.1 ≤ first.1 :=
    ⟨fun first second => Int.le_total second.1 first.1⟩
  have transitive : IsTrans (Int × CTxIn) fun first second => second.1 ≤ first.1 :=
    ⟨fun first second third higher lower => lower.trans higher⟩
  exact ⟨fun scores => List.perm_insertionSort _ scores,
    fun scores => List.pairwise_insertionSort _ scores⟩

namespace CMasternodeMan

variable (node : NodeContext) (mnodeman : CMasternodeMan) (nBlockHeight minProtocol : Int)

/-- A masternode has the same rank wherever it stands in the list. -/
def OrderIndependent : Prop :=
  ∀ sort, SortsByScore sort → ∀ other : CMasternodeMan,
    other.vMasternodes.Perm mnodeman.vMasternodes → ∀ vin,
      (other.getMasternodeRank (node.withSort sort) vin nBlockHeight minProtocol).2 =
        (mnodeman.getMasternodeRank (node.withSort sort) vin nBlockHeight minProtocol).2

/-- The masternode is ranked. -/
def Ranked (mn : CMasternode) : Prop :=
  (node.getBlockHash nBlockHeight).isSome = true ∧ mn ∈ mnodeman.vMasternodes ∧
    mn.Eligible node minProtocol

/-- Different ranked masternodes have different ranks. -/
def DistinctRanks : Prop :=
  ∀ sort, SortsByScore sort → ∀ first second,
    mnodeman.Ranked node nBlockHeight minProtocol first →
    mnodeman.Ranked node nBlockHeight minProtocol second →
    first.vin.prevout ≠ second.vin.prevout →
      (mnodeman.getMasternodeRank (node.withSort sort) first.vin nBlockHeight minProtocol).2 ≠
        (mnodeman.getMasternodeRank (node.withSort sort) second.vin nBlockHeight minProtocol).2

/-- No two ranked masternodes have the same compact score. -/
def NoTies : Prop :=
  ∀ first second, mnodeman.Ranked node nBlockHeight minProtocol first →
    mnodeman.Ranked node nBlockHeight minProtocol second →
    first.vin.prevout ≠ second.vin.prevout →
      (first.calculateScore node nBlockHeight).getCompact ≠
        (second.calculateScore node nBlockHeight).getCompact

/-! ## The scores -/

/-- What `GetMasternodeRank` sorts. -/
def scores : List (Int × CTxIn) :=
  ((mnodeman.vMasternodes.map (rankEntry node minProtocol)).filter Prod.snd).map fun entry =>
    (((entry.1.calculateScore node nBlockHeight).getCompact : Int), entry.1.vin)

variable {node mnodeman nBlockHeight minProtocol}

theorem ranking_withSort {sort : List (Int × CTxIn) → List (Int × CTxIn)}
    (known : (node.getBlockHash nBlockHeight).isSome = true) :
    mnodeman.ranking (node.withSort sort) nBlockHeight minProtocol =
      sort (mnodeman.scores node nBlockHeight minProtocol) := by
  obtain ⟨hash, found⟩ := Option.isSome_iff_exists.mp known
  have same : (node.withSort sort).getBlockHash nBlockHeight = some hash := found
  unfold ranking
  rw [same]
  rfl

theorem calculateScore_congr {first second : CMasternode}
    (same : first.vin.prevout = second.vin.prevout) :
    first.calculateScore node nBlockHeight = second.calculateScore node nBlockHeight := by
  unfold CMasternode.calculateScore
  rw [same]

theorem mem_scores {score : Int × CTxIn} :
    score ∈ mnodeman.scores node nBlockHeight minProtocol ↔
      ∃ mn ∈ mnodeman.vMasternodes, mn.Eligible node minProtocol ∧
        score = (((mn.calculateScore node nBlockHeight).getCompact : Int), mn.vin) := by
  have entry (mn : CMasternode) :
      ((((rankEntry node minProtocol mn).1.calculateScore node nBlockHeight).getCompact : Int),
        (rankEntry node minProtocol mn).1.vin) =
        (((mn.calculateScore node nBlockHeight).getCompact : Int), mn.vin) := by
    rw [calculateScore_congr (congrArg CTxIn.prevout CMasternode.vin_rankEntry),
      CMasternode.vin_rankEntry]
  unfold scores
  constructor
  · intro member
    obtain ⟨passed, inside, rfl⟩ := List.mem_map.mp member
    obtain ⟨listed, passes⟩ := List.mem_filter.mp inside
    obtain ⟨mn, stored, rfl⟩ := List.mem_map.mp listed
    exact ⟨mn, stored, CMasternode.rankEntry_iff.mp passes, entry mn⟩
  · rintro ⟨mn, stored, eligible, rfl⟩
    rw [← entry]
    exact List.mem_map_of_mem (f := fun entry : CMasternode × Bool =>
      (((entry.1.calculateScore node nBlockHeight).getCompact : Int), entry.1.vin))
      (List.mem_filter.mpr ⟨List.mem_map_of_mem stored, CMasternode.rankEntry_iff.mpr eligible⟩)

theorem scores_perm {other : CMasternodeMan}
    (same : other.vMasternodes.Perm mnodeman.vMasternodes) :
    (other.scores node nBlockHeight minProtocol).Perm
      (mnodeman.scores node nBlockHeight minProtocol) :=
  ((same.map _).filter _).map _

/-- The score comes from the collateral alone. -/
theorem score_eq {first second : Int × CTxIn}
    (firstIn : first ∈ mnodeman.scores node nBlockHeight minProtocol)
    (secondIn : second ∈ mnodeman.scores node nBlockHeight minProtocol)
    (same : first.2.prevout = second.2.prevout) : first.1 = second.1 := by
  obtain ⟨one, -, -, rfl⟩ := mem_scores.mp firstIn
  obtain ⟨two, -, -, rfl⟩ := mem_scores.mp secondIn
  dsimp only at same ⊢
  rw [calculateScore_congr same]

/-! ## The place of a masternode -/

/-- The place of a masternode in a ranking. -/
def placeOf (ranking : List (Int × CTxIn)) (prevout : COutPoint) : Option Nat :=
  ranking.findIdx? fun score => score.2.prevout == prevout

theorem rank_withSort {sort : List (Int × CTxIn) → List (Int × CTxIn)} (vin : CTxIn)
    (known : (node.getBlockHash nBlockHeight).isSome = true) :
    (mnodeman.getMasternodeRank (node.withSort sort) vin nBlockHeight minProtocol).2 =
      (placeOf (sort (mnodeman.scores node nBlockHeight minProtocol)) vin.prevout).elim (-1 : Int)
        fun position => position + 1 := by
  rw [snd_getMasternodeRank, ranking_withSort known, placeOf]

/-- The places in a ranking come from the order of the collaterals. -/
theorem placeOf_eq (ranking : List (Int × CTxIn)) (prevout : COutPoint) :
    placeOf ranking prevout =
      (ranking.map fun score => score.2.prevout).findIdx? (· == prevout) := by
  rw [placeOf, List.findIdx?_map]
  rfl

/-- Without ties the order of the collaterals does not depend on that of the list. -/
theorem map_prevout_eq (noTies : mnodeman.NoTies node nBlockHeight minProtocol)
    (known : (node.getBlockHash nBlockHeight).isSome = true)
    {sort : List (Int × CTxIn) → List (Int × CTxIn)} (sorts : SortsByScore sort)
    {other : CMasternodeMan} (same : other.vMasternodes.Perm mnodeman.vMasternodes) :
    (sort (other.scores node nBlockHeight minProtocol)).map (fun score => score.2.prevout) =
      (sort (mnodeman.scores node nBlockHeight minProtocol)).map fun score => score.2.prevout := by
  let key := fun score : Int × CTxIn => (score.1, score.2.prevout)
  have listed {score : Int × CTxIn}
      (member : score ∈ sort (other.scores node nBlockHeight minProtocol)) :
      score ∈ mnodeman.scores node nBlockHeight minProtocol :=
    (scores_perm same).mem_iff.mp ((sorts.perm _).mem_iff.mp member)
  have keys : (sort (other.scores node nBlockHeight minProtocol)).map key =
      (sort (mnodeman.scores node nBlockHeight minProtocol)).map key := by
    refine @List.Perm.eq_of_pairwise _ (fun first second => second.1 ≤ first.1) _ _ ?_ ?_ ?_ ?_
    · intro first second firstIn secondIn higher lower
      obtain ⟨one, oneIn, rfl⟩ := List.mem_map.mp firstIn
      obtain ⟨two, twoIn, rfl⟩ := List.mem_map.mp secondIn
      have tied : one.1 = two.1 := le_antisymm lower higher
      obtain ⟨mn, stored, eligible, rfl⟩ := mem_scores.mp (listed oneIn)
      obtain ⟨pmn, kept, passes, rfl⟩ := mem_scores.mp ((sorts.perm _).mem_iff.mp twoIn)
      have together : mn.vin.prevout = pmn.vin.prevout := by
        by_contra different
        exact noTies mn pmn ⟨known, stored, eligible⟩ ⟨known, kept, passes⟩ different
          (Int.ofNat_inj.mp tied)
      exact Prod.ext tied together
    · exact List.pairwise_map.mpr (sorts.sorted _)
    · exact List.pairwise_map.mpr (sorts.sorted _)
    · exact (((sorts.perm _).trans (scores_perm same)).trans (sorts.perm _).symm).map key
  have projected := congrArg (List.map Prod.snd) keys
  rwa [List.map_map, List.map_map] at projected

theorem orderIndependent_of_noTies (noTies : mnodeman.NoTies node nBlockHeight minProtocol) :
    mnodeman.OrderIndependent node nBlockHeight minProtocol := by
  intro sort sorts other same vin
  cases known : node.getBlockHash nBlockHeight with
  | none =>
      have unknown : (node.withSort sort).getBlockHash nBlockHeight = none := known
      unfold getMasternodeRank
      rw [unknown]
  | some hash =>
      have found : (node.getBlockHash nBlockHeight).isSome = true := by
        rw [known]
        rfl
      rw [rank_withSort vin found, rank_withSort vin found, placeOf_eq, placeOf_eq,
        map_prevout_eq noTies found sorts same]

theorem exists_placeOf {ranking : List (Int × CTxIn)} {score : Int × CTxIn}
    (member : score ∈ ranking) : ∃ position, placeOf ranking score.2.prevout = some position :=
  ⟨_, List.findIdx?_eq_some_of_exists ⟨score, member, beq_self_eq_true _⟩⟩

/-- Different collaterals have different places. -/
theorem placeOf_ne {ranking : List (Int × CTxIn)} {first second : COutPoint} {position : Nat}
    (different : first ≠ second) (place : placeOf ranking first = some position) :
    placeOf ranking second ≠ some position := by
  intro both
  unfold placeOf at place both
  obtain ⟨inside, one, _⟩ := List.findIdx?_eq_some_iff_getElem.mp place
  obtain ⟨_, two, _⟩ := List.findIdx?_eq_some_iff_getElem.mp both
  exact different ((beq_iff_eq.mp one).symm.trans (beq_iff_eq.mp two))

/-- A ranked masternode is in every ranking. -/
theorem Ranked.exists_placeOf {mn : CMasternode}
    (ranked : mnodeman.Ranked node nBlockHeight minProtocol mn)
    {sort : List (Int × CTxIn) → List (Int × CTxIn)} (sorts : SortsByScore sort) :
    ∃ position, placeOf (sort (mnodeman.scores node nBlockHeight minProtocol)) mn.vin.prevout =
      some position :=
  CMasternodeMan.exists_placeOf
    ((sorts.perm _).mem_iff.mpr (mem_scores.mpr ⟨mn, ranked.2.1, ranked.2.2, rfl⟩))

theorem distinctRanks (node : NodeContext) (mnodeman : CMasternodeMan)
    (nBlockHeight minProtocol : Int) : mnodeman.DistinctRanks node nBlockHeight minProtocol := by
  intro sort sorts first second firstRanked secondRanked different
  rw [rank_withSort _ firstRanked.1, rank_withSort _ firstRanked.1]
  obtain ⟨one, firstPlace⟩ := firstRanked.exists_placeOf sorts
  obtain ⟨two, secondPlace⟩ := secondRanked.exists_placeOf sorts
  rw [firstPlace, secondPlace]
  simp only [Option.elim_some]
  intro same
  obtain rfl : one = two := by omega
  exact placeOf_ne different firstPlace secondPlace

/-! ## Ties -/

/-- Insertion puts the first of the list before the others with its score. -/
theorem placeOf_lt_of_tie {head tied : Int × CTxIn} {rest : List (Int × CTxIn)}
    (same : head.1 = tied.1) (different : head.2.prevout ≠ tied.2.prevout) (inside : tied ∈ rest)
    (determined : ∀ score ∈ rest, score.2.prevout = tied.2.prevout → score.1 = tied.1) :
    ∃ place later, placeOf (insertionSortByScore (head :: rest)) head.2.prevout = some place ∧
      placeOf (insertionSortByScore (head :: rest)) tied.2.prevout = some later ∧
      place < later := by
  obtain ⟨before, after, split, higher⟩ : ∃ before after,
      insertionSortByScore (head :: rest) = before ++ head :: after ∧
        ∀ score ∈ before, score ∈ rest ∧ head.1 < score.1 := by
    refine ⟨_, _, List.insertionSort_cons_eq_take_drop _ head rest, ?_⟩
    intro score member
    have kept := List.mem_takeWhile_imp member
    have sorted := (List.takeWhile_sublist _).subset member
    simp only [decide_eq_true_eq] at kept
    exact ⟨(List.perm_insertionSort _ rest).mem_iff.mp sorted, not_le.mp kept⟩
  have total (score : Int × CTxIn) (listed : score ∈ head :: rest) :
      ∃ position, placeOf (insertionSortByScore (head :: rest)) score.2.prevout = some position :=
    exists_placeOf ((sortsByScore_insertionSort.perm _).mem_iff.mpr listed)
  obtain ⟨place, found⟩ := total head List.mem_cons_self
  obtain ⟨later, lies⟩ := total tied (List.mem_cons_of_mem _ inside)
  refine ⟨place, later, found, lies, ?_⟩
  rw [split, placeOf] at found lies
  obtain ⟨_, _, firstOne⟩ := List.findIdx?_eq_some_iff_getElem.mp found
  obtain ⟨inRange, here, _⟩ := List.findIdx?_eq_some_iff_getElem.mp lies
  have early : place ≤ before.length := by
    by_contra far
    exact firstOne before.length (not_le.mp far) (by simp)
  have late : before.length < later := by
    rcases lt_trichotomy later before.length with near | at_ | far
    · rw [List.getElem_append_left near] at here
      obtain ⟨listed, above⟩ := higher _ (List.getElem_mem near)
      have level := determined _ listed (beq_iff_eq.mp here)
      omega
    · subst at_
      simp only [List.getElem_append_right (Nat.le_refl _), Nat.sub_self,
        List.getElem_cons_zero] at here
      exact absurd (beq_iff_eq.mp here) different
    · exact far
  omega

/-- With a ranked masternode in front the ranking starts with its score. -/
theorem scores_cons {mn : CMasternode} {rest : List CMasternode}
    (eligible : mn.Eligible node minProtocol) :
    (CMasternodeMan.mk (mn :: rest)).scores node nBlockHeight minProtocol =
      (((mn.calculateScore node nBlockHeight).getCompact : Int), mn.vin) ::
        (CMasternodeMan.mk rest).scores node nBlockHeight minProtocol := by
  have passes := CMasternode.rankEntry_iff.mpr eligible
  unfold scores
  rw [List.map_cons, List.filter_cons_of_pos passes, List.map_cons, CMasternode.vin_rankEntry,
    calculateScore_congr (congrArg CTxIn.prevout CMasternode.vin_rankEntry)]

/-- A masternode in front of another one with the same score has the smaller rank. -/
theorem rank_lt_of_tie {first second : CMasternode} {rest : List CMasternode}
    (known : (node.getBlockHash nBlockHeight).isSome = true)
    (firstEligible : first.Eligible node minProtocol)
    (secondEligible : second.Eligible node minProtocol) (inside : second ∈ rest)
    (different : first.vin.prevout ≠ second.vin.prevout)
    (tied : (first.calculateScore node nBlockHeight).getCompact =
      (second.calculateScore node nBlockHeight).getCompact) :
    ((CMasternodeMan.mk (first :: rest)).getMasternodeRank (node.withSort insertionSortByScore)
        first.vin nBlockHeight minProtocol).2 <
      ((CMasternodeMan.mk (first :: rest)).getMasternodeRank (node.withSort insertionSortByScore)
        second.vin nBlockHeight minProtocol).2 := by
  have listed : (((second.calculateScore node nBlockHeight).getCompact : Int), second.vin) ∈
      (CMasternodeMan.mk rest).scores node nBlockHeight minProtocol :=
    mem_scores.mpr ⟨second, inside, secondEligible, rfl⟩
  obtain ⟨place, later, found, lies, before⟩ :=
    @placeOf_lt_of_tie (((first.calculateScore node nBlockHeight).getCompact : Int), first.vin)
      _ _ (congrArg Nat.cast tied) different listed
      fun score member same => score_eq member listed same
  rw [rank_withSort _ known, rank_withSort _ known, scores_cons firstEligible, found, lies,
    Option.elim_some, Option.elim_some]
  omega

/-- A member of a list can be brought to its front. -/
theorem exists_perm_cons {mn : CMasternode} (stored : mn ∈ mnodeman.vMasternodes) :
    ∃ rest, (mn :: rest).Perm mnodeman.vMasternodes :=
  ⟨_, (List.perm_cons_erase stored).symm⟩

theorem noTies_of_orderIndependent
    (independent : mnodeman.OrderIndependent node nBlockHeight minProtocol) :
    mnodeman.NoTies node nBlockHeight minProtocol := by
  intro first second firstRanked secondRanked different tied
  obtain ⟨firstRest, firstPerm⟩ := exists_perm_cons firstRanked.2.1
  obtain ⟨secondRest, secondPerm⟩ := exists_perm_cons secondRanked.2.1
  have secondInside : second ∈ firstRest := by
    rcases List.mem_cons.mp (firstPerm.mem_iff.mpr secondRanked.2.1) with same | inside
    · exact absurd (congrArg (fun mn => mn.vin.prevout) same).symm different
    · exact inside
  have firstInside : first ∈ secondRest := by
    rcases List.mem_cons.mp (secondPerm.mem_iff.mpr firstRanked.2.1) with same | inside
    · exact absurd (congrArg (fun mn => mn.vin.prevout) same) different
    · exact inside
  have below := rank_lt_of_tie firstRanked.1 firstRanked.2.2 secondRanked.2.2 secondInside
    different tied
  have above := rank_lt_of_tie firstRanked.1 secondRanked.2.2 firstRanked.2.2 firstInside
    (Ne.symm different) tied.symm
  have agree := independent _ sortsByScore_insertionSort
  rw [agree ⟨first :: firstRest⟩ firstPerm, agree ⟨first :: firstRest⟩ firstPerm] at below
  rw [agree ⟨second :: secondRest⟩ secondPerm, agree ⟨second :: secondRest⟩ secondPerm] at above
  omega

end CMasternodeMan

open CMasternodeMan in
/-- **Ranks do not depend on the order of the masternodes** and different masternodes have
different ranks, if and only if no two ranked masternodes have the same compact score. -/
theorem rank_orderIndependent_iff (node : NodeContext) (mnodeman : CMasternodeMan)
    (nBlockHeight minProtocol : Int) :
    (mnodeman.OrderIndependent node nBlockHeight minProtocol ∧
      mnodeman.DistinctRanks node nBlockHeight minProtocol) ↔
        mnodeman.NoTies node nBlockHeight minProtocol :=
  ⟨fun holds => noTies_of_orderIndependent holds.1,
    fun noTies => ⟨orderIndependent_of_noTies noTies, distinctRanks _ _ _ _⟩⟩

/-- Two masternodes whose scores differ in the last byte swap their ranks. -/
theorem not_rank_orderIndependent :
    ¬ ∀ (node : NodeContext) (first second : CMasternodeMan), SortsByScore node.sortByScore →
      second.vMasternodes.Perm first.vMasternodes →
      ∀ (vin : CTxIn) (nBlockHeight minProtocol : Int),
        (second.getMasternodeRank node vin nBlockHeight minProtocol).2 =
          (first.getMasternodeRank node vin nBlockHeight minProtocol).2 := by
  intro agree
  have same := agree (NodeContext.mainNode 400000) twoMasternodes.mnodeman
    ⟨twoMasternodes.mnodeman.vMasternodes.reverse⟩ sortsByScore_insertionSort
    (List.reverse_perm _) { prevout := ⟨1001, 0⟩ } 399910 70720
  exact absurd same (by decide +kernel)

end GiantCore
