import GiantCore.Masternode.Gossip

/-! # The rank of a voter

A winner vote counts when its voter is among the first ten of the masternodes that
`GetMasternodeRank` ranks. A masternode without a rank has the number -1, and `IsValid`
only asks whether the number is more than ten: a voter that is too young or not enabled
passes, and every voter passes for a height whose block is not known.
-/

namespace GiantCore

namespace CMasternode

variable (node : NodeContext) (minProtocol : Int) (mn : CMasternode)

/-- The masternode is one that `GetMasternodeRank` ranks. -/
structure Eligible : Prop where
  recent : minProtocol ≤ mn.protocolVersion
  oldEnough : node.isSporkActive .masternodePaymentEnforcement = true →
    CMasternodeMan.winnerMinimumAge ≤ node.adjustedTime - mn.sigTime
  enabled : (mn.check node).isEnabled = true

variable {node minProtocol mn}

theorem rankEntry_iff :
    (CMasternodeMan.rankEntry node minProtocol mn).2 = true ↔ mn.Eligible node minProtocol := by
  unfold CMasternodeMan.rankEntry
  split
  · rename_i old
    constructor
    · intro ranked
      cases ranked
    · intro eligible
      exact absurd eligible.recent (not_le.mpr old)
  · rename_i recent
    split
    · rename_i young
      rw [Bool.and_eq_true, decide_eq_true_eq] at young
      constructor
      · intro ranked
        cases ranked
      · intro eligible
        exact absurd (eligible.oldEnough young.1) (not_le.mpr young.2)
    · rename_i age
      rw [Bool.and_eq_true, decide_eq_true_eq, not_and, not_lt] at age
      exact ⟨fun enabled => ⟨not_lt.mp recent, age, enabled⟩, Eligible.enabled⟩

theorem vin_rankEntry : (CMasternodeMan.rankEntry node minProtocol mn).1.vin = mn.vin := by
  unfold CMasternodeMan.rankEntry
  split
  · rfl
  · split
    · rfl
    · exact vin_check node mn

end CMasternode

namespace CMasternodeMan

variable (node : NodeContext) (mnodeman : CMasternodeMan)

/-- The ranked masternodes, the first one first; none when the block is not known. -/
def ranking (nBlockHeight minProtocol : Int) : List (Int × CTxIn) :=
  match node.getBlockHash nBlockHeight with
  | none => []
  | some _ =>
      let entries := mnodeman.vMasternodes.map (rankEntry node minProtocol)
      node.sortByScore ((entries.filter Prod.snd).map fun entry =>
        (((entry.1.calculateScore node nBlockHeight).getCompact : Int), entry.1.vin))

variable {node mnodeman}

/-- The rank is the place in the ranking. -/
theorem snd_getMasternodeRank (vin : CTxIn) (nBlockHeight minProtocol : Int) :
    (mnodeman.getMasternodeRank node vin nBlockHeight minProtocol).2 =
      ((mnodeman.ranking node nBlockHeight minProtocol).findIdx? fun score =>
        score.2.prevout == vin.prevout).elim (-1 : Int) fun position => position + 1 := by
  unfold getMasternodeRank ranking
  cases node.getBlockHash nBlockHeight with
  | none => rfl
  | some hash => rfl

/-- A masternode is in the ranking when the block is known and it is eligible. -/
theorem mem_ranking_iff (sorts : ∀ scores, (node.sortByScore scores).Perm scores)
    {nBlockHeight minProtocol : Int} {prevout : COutPoint} :
    (∃ score ∈ mnodeman.ranking node nBlockHeight minProtocol, score.2.prevout = prevout) ↔
      (node.getBlockHash nBlockHeight).isSome = true ∧ ∃ mn ∈ mnodeman.vMasternodes,
        mn.vin.prevout = prevout ∧ mn.Eligible node minProtocol := by
  unfold ranking
  cases node.getBlockHash nBlockHeight with
  | none => simp
  | some hash =>
      simp only [(sorts _).mem_iff, Option.isSome_some, true_and]
      constructor
      · rintro ⟨score, member, same⟩
        obtain ⟨entry, ranked, rfl⟩ := List.mem_map.mp member
        obtain ⟨listed, passed⟩ := List.mem_filter.mp ranked
        obtain ⟨mn, inside, rfl⟩ := List.mem_map.mp listed
        rw [CMasternode.vin_rankEntry] at same
        exact ⟨mn, inside, same, CMasternode.rankEntry_iff.mp passed⟩
      · rintro ⟨mn, inside, same, eligible⟩
        have listed := List.mem_map_of_mem (f := rankEntry node minProtocol) inside
        have ranked := List.mem_filter.mpr ⟨listed, CMasternode.rankEntry_iff.mpr eligible⟩
        refine ⟨_, List.mem_map_of_mem ranked, ?_⟩
        rw [CMasternode.vin_rankEntry, same]

end CMasternodeMan

namespace CMasternodePaymentWinner

open CMasternodeMan

variable (node : NodeContext) (mnodeman : CMasternodeMan) (winner : CMasternodePaymentWinner)

/-- **The voter is in the list and among the first ten** of the ranking, in which only
eligible masternodes stand. -/
structure TopRanked : Prop where
  listed : (mnodeman.find winner.vinMasternode).isSome = true
  eligible : ∃ mn ∈ mnodeman.vMasternodes, mn.vin.prevout = winner.vinMasternode.prevout ∧
    mn.Eligible node node.activeProtocol
  first : ∃ score ∈ (mnodeman.ranking node (winner.nBlockHeight - 100)
    node.activeProtocol).take signaturesTotal.toNat,
      score.2.prevout = winner.vinMasternode.prevout

/-- The block is known, and the voter is eligible. -/
def Rankable : Prop :=
  (node.getBlockHash (winner.nBlockHeight - 100)).isSome = true ∧ ∃ mn ∈ mnodeman.vMasternodes,
    mn.vin.prevout = winner.vinMasternode.prevout ∧ mn.Eligible node node.activeProtocol

variable {node mnodeman winner}

/-- A masternode that is known and recent passes when its rank is at most ten. -/
theorem isValid_iff : (winner.isValid node mnodeman).2 = true ↔
    (∃ pmn, mnodeman.find winner.vinMasternode = some pmn ∧
      node.activeProtocol ≤ pmn.protocolVersion) ∧
    (mnodeman.getMasternodeRank node winner.vinMasternode (winner.nBlockHeight - 100)
      node.activeProtocol).2 ≤ signaturesTotal := by
  unfold isValid
  split
  · rename_i unknown
    simp [unknown]
  · rename_i pmn known
    split
    · rename_i old
      simp [known, old]
    · rename_i recent
      simp [known, not_lt.mp recent]

/-- The rank of a masternode that is not in the ranking is -1. -/
theorem rank_of_not_rankable (sorts : ∀ scores, (node.sortByScore scores).Perm scores)
    (unranked : ¬ winner.Rankable node mnodeman) :
    (mnodeman.getMasternodeRank node winner.vinMasternode (winner.nBlockHeight - 100)
      node.activeProtocol).2 = -1 := by
  have nowhere : (mnodeman.ranking node (winner.nBlockHeight - 100) node.activeProtocol).findIdx?
      (fun score => score.2.prevout == winner.vinMasternode.prevout) = none := by
    rw [List.findIdx?_eq_none_iff]
    intro score member
    rw [beq_eq_false_iff_ne]
    intro same
    exact unranked ((mem_ranking_iff sorts).mp ⟨score, member, same⟩)
  rw [snd_getMasternodeRank, nowhere]
  rfl

/-- A masternode in the ranking with a number of at most ten is among the first ten. -/
theorem first_of_rankable (sorts : ∀ scores, (node.sortByScore scores).Perm scores)
    (ranked : winner.Rankable node mnodeman)
    (small : (mnodeman.getMasternodeRank node winner.vinMasternode (winner.nBlockHeight - 100)
      node.activeProtocol).2 ≤ signaturesTotal) :
    ∃ score ∈ (mnodeman.ranking node (winner.nBlockHeight - 100)
      node.activeProtocol).take signaturesTotal.toNat,
        score.2.prevout = winner.vinMasternode.prevout := by
  rw [snd_getMasternodeRank] at small
  obtain ⟨score, member, same⟩ := (mem_ranking_iff sorts).mpr ranked
  have found := List.findIdx?_eq_some_of_exists (p := fun score : Int × CTxIn =>
    score.2.prevout == winner.vinMasternode.prevout) ⟨score, member, beq_iff_eq.mpr same⟩
  obtain ⟨inside, here, -⟩ := List.findIdx?_eq_some_iff_getElem.mp found
  rw [found, Option.elim_some, signaturesTotal] at small
  refine ⟨_, ?_, beq_iff_eq.mp here⟩
  rw [List.mem_take_iff_getElem]
  refine ⟨_, ?_, rfl⟩
  rw [signaturesTotal]
  omega

end CMasternodePaymentWinner

open CMasternodePaymentWinner in
/-- **Only top-ranked masternodes vote.** `IsValid` admits only voters among the first ten
if and only if a voter that is known and recent has a rank at all: the block is known, and
the voter is old enough and enabled. -/
theorem isValid_topRanked_iff (node : NodeContext)
    (sorts : ∀ scores, (node.sortByScore scores).Perm scores) (mnodeman : CMasternodeMan)
    (winner : CMasternodePaymentWinner) :
    ((winner.isValid node mnodeman).2 = true → winner.TopRanked node mnodeman) ↔
      ∀ pmn, mnodeman.find winner.vinMasternode = some pmn →
        node.activeProtocol ≤ pmn.protocolVersion → winner.Rankable node mnodeman := by
  constructor
  · intro top pmn known recent
    by_contra unranked
    have rank := rank_of_not_rankable sorts unranked
    have passes : (winner.isValid node mnodeman).2 = true := by
      rw [isValid_iff, rank]
      exact ⟨⟨pmn, known, recent⟩, by decide⟩
    obtain ⟨score, member, same⟩ := (top passes).first
    apply unranked
    exact (CMasternodeMan.mem_ranking_iff sorts).mp ⟨score, List.mem_of_mem_take member, same⟩
  · intro rankable valid
    obtain ⟨⟨pmn, known, recent⟩, small⟩ := isValid_iff.mp valid
    have ranked := rankable pmn known recent
    exact ⟨by rw [known]; rfl, ranked.2, first_of_rankable sorts ranked small⟩

/-- The sort of the example node sorts. -/
theorem NodeContext.perm_sortByScore_mainNode (tipHeight : Int) (scores : List (Int × CTxIn)) :
    ((NodeContext.mainNode tipHeight).sortByScore scores).Perm scores :=
  List.perm_insertionSort _ scores

/-- The vote of an enabled masternode for a height whose block is known. -/
theorem isValid_topRanked_twoMasternodes :
    ((voteFor 400010 []).winner.isValid (NodeContext.mainNode 400000)
      twoMasternodes.mnodeman).2 = true ∧
    (voteFor 400010 []).winner.TopRanked (NodeContext.mainNode 400000) twoMasternodes.mnodeman := by
  have valid : ((voteFor 400010 []).winner.isValid (NodeContext.mainNode 400000)
      twoMasternodes.mnodeman).2 = true := by
    decide
  refine ⟨valid, ?_⟩
  refine (isValid_topRanked_iff (NodeContext.mainNode 400000)
    (NodeContext.perm_sortByScore_mainNode 400000) twoMasternodes.mnodeman
    (voteFor 400010 []).winner).mpr ?_ valid
  intro pmn known recent
  refine ⟨rfl, _, List.mem_cons_self, rfl, ?_⟩
  exact ⟨by decide, by decide, by decide⟩

/-- A masternode whose collateral is spent. -/
def spentMasternode : CMasternode :=
  { CMasternode.enabledNode 1 (5000 * COIN) with activeState := .vinSpent }

/-- Its vote is valid. -/
theorem not_isValid_topRanked_spent :
    ¬ ∀ (node : NodeContext), (∀ scores, (node.sortByScore scores).Perm scores) →
      ∀ (mnodeman : CMasternodeMan) (winner : CMasternodePaymentWinner),
        (winner.isValid node mnodeman).2 = true → winner.TopRanked node mnodeman := by
  intro always
  have top := always (NodeContext.mainNode 400000) (NodeContext.perm_sortByScore_mainNode 400000)
    ⟨[spentMasternode]⟩ (voteFor 400010 []).winner (by decide)
  obtain ⟨mn, member, -, eligible⟩ := top.eligible
  rw [List.mem_singleton.mp member] at eligible
  exact absurd eligible.enabled (by decide)

end GiantCore
