import GiantCore.Budget.Payout
import GiantCore.Foundation.Greedy

/-! # The allocation of the budget

`GetBudget` sorts the proposals by net votes and takes those that pass, one after the other, as
long as they fit. The count of masternodes for the threshold is asked for with the active protocol
as the level, so that it is zero; and the allotment of a proposal that does not pass stays what it
was. The allocation is the greedy one exactly under the conditions of
`getBudget_allocatesGreedily_iff`.
-/

namespace GiantCore

open GiantCore.Foundation

/-- A vote of a proposal with its flag. -/
structure StoredProposalVote where
  vote : CBudgetVote
  fValid : Bool := true
  deriving DecidableEq, Repr

/-- What `GetBudget` reads of a `CBudgetProposal`, and its allotment. -/
structure StoredProposal where
  nBlockStart : Int
  nBlockEnd : Int
  nAmount : CAmount
  nFeeTXHash : Uint256
  nTime : Int
  fValid : Bool := true
  nAlloted : CAmount := 0
  mapVotes : List StoredProposalVote := []
  deriving DecidableEq, Repr

/-- `VOTE_YES`. -/
def voteYes : Int := 1

/-- `VOTE_NO`. -/
def voteNo : Int := 2

namespace StoredProposal

variable (node : NodeContext) (mnodeman : CMasternodeMan) (proposal : StoredProposal)

/-- `CleanAndRemove(false)`: a vote is valid as long as its masternode is known. -/
def cleanAndRemove : StoredProposal :=
  { proposal with mapVotes := proposal.mapVotes.map fun it =>
      { it with fValid := (mnodeman.find it.vote.vin).isSome } }

def getYeas : Int :=
  proposal.mapVotes.countP fun it => it.vote.nVote == voteYes && it.fValid

def getNays : Int :=
  proposal.mapVotes.countP fun it => it.vote.nVote == voteNo && it.fValid

/-- `IsEstablished`, with a day for the establishment. -/
def isEstablished : Bool := proposal.nTime < node.adjustedTime - 60 * 60 * 24

/-- `IsPassing`, where there is a tip. -/
def isPassing (nBlockStartBudget nBlockEndBudget mnCount : Int) : Bool :=
  if !proposal.fValid then false
  else if proposal.nBlockStart > nBlockStartBudget then false
  else if proposal.nBlockEnd < nBlockEndBudget then false
  else if proposal.getYeas - proposal.getNays ≤ mnCount.tdiv 10 then false
  else if !proposal.isEstablished node then false
  else true

end StoredProposal

/-- An entry of `mapProposals`. -/
abbrev ProposalEntry := Uint256 × StoredProposal

namespace BudgetAllocation

variable (node : NodeContext) (mnodeman : CMasternodeMan)
  (sort : List (ProposalEntry × Int) → List (ProposalEntry × Int)) (entries : List ProposalEntry)

/-- `sortProposalsByVotes`: by votes, and by the hash of the fee transaction if there is a tie. -/
def sortsBefore (left right : ProposalEntry × Int) : Bool :=
  if left.2 ≠ right.2 then decide (left.2 > right.2)
  else decide (left.1.2.nFeeTXHash > right.1.2.nFeeTXHash)

/-- What `std::sort` does with this comparison. -/
structure SortsByVotes : Prop where
  perm : ∀ items, (sort items).Perm items
  sorted : ∀ items, (sort items).Pairwise fun left right => sortsBefore right left = false

/-- `GetTotalBudget`. -/
def getTotalBudget : CAmount :=
  match node.tip with
  | none => 0
  | some _ =>
      let nSubsidy := if node.params.networkID = .testnet then 5000 * COIN else 100 * COIN
      wrapAmount (nSubsidy / 100 * 10 * node.params.nBudgetCycleBlocks)

/-- `SetAllotted` of one proposal. -/
def setAllotted (hash : Uint256) (nAlloted : CAmount) (entries : List ProposalEntry) :
    List ProposalEntry :=
  entries.map fun it => if it.1 = hash then (it.1, { it.2 with nAlloted }) else it

/-- The second loop of `GetBudget`: the map of the proposals and those that are taken. -/
def allocate (passes : StoredProposal → Bool) (nTotalBudget : CAmount) :
    List ProposalEntry → CAmount → List ProposalEntry → List ProposalEntry × List Uint256
  | [], _, entries => (entries, [])
  | it2 :: rest, nBudgetAllocated, entries =>
      if passes it2.2 then
        if it2.2.nAmount + nBudgetAllocated ≤ nTotalBudget then
          let (entries, taken) := allocate passes nTotalBudget rest
            (nBudgetAllocated + it2.2.nAmount) (setAllotted it2.1 it2.2.nAmount entries)
          (entries, it2.1 :: taken)
        else allocate passes nTotalBudget rest nBudgetAllocated (setAllotted it2.1 0 entries)
      else allocate passes nTotalBudget rest nBudgetAllocated entries

/-- The proposals after `CleanAndRemove`. -/
def cleaned : List ProposalEntry :=
  entries.map fun it => (it.1, it.2.cleanAndRemove mnodeman)

/-- The proposals in the order of the sort. -/
def sortedProposals : List ProposalEntry :=
  (sort ((cleaned mnodeman entries).map fun it => (it, it.2.getYeas - it.2.getNays))).map Prod.fst

/-- The first block of the next cycle. -/
def nextCycleStart (nHeight : Int) : Int :=
  nHeight - nHeight.tmod node.params.nBudgetCycleBlocks + node.params.nBudgetCycleBlocks

/-- The test of the second loop for a count of masternodes. -/
def passesAt (mnCount : Int) (pindexPrev : CBlockIndex) (proposal : StoredProposal) : Bool :=
  let nBlockStart := nextCycleStart node pindexPrev.nHeight
  let nBlockEnd := nBlockStart + node.params.nBudgetCycleBlocks - 1
  proposal.isPassing node nBlockStart nBlockEnd mnCount

/-- `GetBudget`: the proposals in the order of the map, and the hashes of those that it returns. -/
def getBudget : List ProposalEntry × List Uint256 :=
  let vBudgetPorposalsSort := sortedProposals mnodeman sort entries
  match node.tip with
  | none => (cleaned mnodeman entries, [])
  | some pindexPrev =>
      let mnCount := (mnodeman.countEnabled node node.activeProtocol (-1)).2
      allocate (passesAt node mnCount pindexPrev) (getTotalBudget node) vBudgetPorposalsSort 0
        (cleaned mnodeman entries)

/-! ## The greedy allocation -/

/-- The masternodes whose votes the threshold should count. -/
def enabledCount : Nat :=
  (mnodeman.checkAll node).vMasternodes.countP fun mn =>
    decide (node.activeProtocol ≤ mn.protocolVersion) && mn.isEnabled

/-- An established, valid proposal that covers the next cycle, with net votes above a tenth of a
count of masternodes. There is none without a tip. -/
def eligible (mnCount : Int) (it : ProposalEntry) : Bool :=
  match node.tip with
  | none => false
  | some pindexPrev => passesAt node mnCount pindexPrev it.2

/-- The greedy choice among the proposals above a tenth of a count of masternodes. -/
def greedy (mnCount : Int) : List ProposalEntry :=
  Greedy.take (fun it : ProposalEntry => it.2.nAmount) (getTotalBudget node) 0
    ((sortedProposals mnodeman sort entries).filter (eligible node mnCount))

/-- **The allocation is the greedy one** above a tenth of the enabled masternodes, the allotments
say so, and neither depends on the order of the map when the fee hashes are distinct. -/
structure AllocatesGreedily : Prop where
  chosen : (getBudget node mnodeman sort entries).2 =
    (greedy node mnodeman sort entries (enabledCount node mnodeman)).map Prod.fst
  allotted : ∀ it ∈ (getBudget node mnodeman sort entries).1, it.2.nAlloted =
    if it.1 ∈ (greedy node mnodeman sort entries (enabledCount node mnodeman)).map Prod.fst
      then it.2.nAmount else 0
  orderIndependent : (entries.map fun it => it.2.nFeeTXHash).Nodup →
    ∀ other, other.Perm entries →
      (getBudget node mnodeman sort other).2 = (getBudget node mnodeman sort entries).2 ∧
      (getBudget node mnodeman sort other).1.Perm (getBudget node mnodeman sort entries).1

/-- The conditions: a proposal that does not pass had no allotment, and one that passes by the
count of zero alone does not fit in what is left. -/
structure Unaffected : Prop where
  unallotted : ∀ it ∈ cleaned mnodeman entries, eligible node 0 it = false → it.2.nAlloted = 0
  tooLarge : ∀ it ∈ cleaned mnodeman entries, eligible node 0 it = true →
    eligible node (enabledCount node mnodeman) it = false →
      getTotalBudget node < it.2.nAmount +
        Greedy.sum (fun it : ProposalEntry => it.2.nAmount)
          (greedy node mnodeman sort entries (enabledCount node mnodeman))

/-! ## The loop -/

local instance lawfulBEqUint256 : LawfulBEq Uint256 := inferInstance

/-- The allotment that the loop leaves for an entry. -/
def allotment (passing : List ProposalEntry) (taken : List Uint256) (it : ProposalEntry) :
    ProposalEntry :=
  match passing.find? fun other => other.1 == it.1 with
  | none => it
  | some other =>
      (it.1, { it.2 with nAlloted := if it.1 ∈ taken then other.2.nAmount else 0 })

variable {node mnodeman sort entries}

theorem mem_taken {passes : StoredProposal → Bool} {total spent : CAmount}
    {items : List ProposalEntry} {hash : Uint256}
    (taken : hash ∈ (Greedy.take (fun it : ProposalEntry => it.2.nAmount) total spent
      (items.filter fun it => passes it.2)).map Prod.fst) : hash ∈ items.map Prod.fst := by
  obtain ⟨it, inside, rfl⟩ := List.mem_map.mp taken
  exact List.mem_map_of_mem (List.mem_of_mem_filter ((Greedy.take_sublist _ _).subset inside))

theorem allotment_of_absent {passing : List ProposalEntry} {taken : List Uint256}
    {it : ProposalEntry} (absent : passing.find? (fun other => other.1 == it.1) = none) :
    allotment passing taken it = it := by
  unfold allotment
  rw [absent]

theorem allotment_head {passing : List ProposalEntry} {taken : List Uint256}
    {first it : ProposalEntry} (same : it.1 = first.1) :
    allotment (first :: passing) taken it =
      (it.1, { it.2 with nAlloted := if it.1 ∈ taken then first.2.nAmount else 0 }) := by
  unfold allotment
  rw [List.find?_cons_of_pos (by simp [same])]

/-- Another entry of the map is allotted as without the first proposal. -/
theorem allotment_cons {passing : List ProposalEntry} {taken : List Uint256}
    {first it : ProposalEntry} (other : it.1 ≠ first.1) :
    allotment (first :: passing) taken it = allotment passing taken it ∧
      allotment (first :: passing) (first.1 :: taken) it = allotment passing taken it := by
  have later : (first :: passing).find? (fun entry => entry.1 == it.1) =
      passing.find? fun entry => entry.1 == it.1 :=
    List.find?_cons_of_neg (by simpa using Ne.symm other)
  unfold allotment
  rw [later]
  refine ⟨rfl, ?_⟩
  simp only [List.mem_cons, other, false_or]

/-- **The loop** takes greedily, and allots what it takes. -/
theorem allocate_eq (passes : StoredProposal → Bool) (total : CAmount)
    (items : List ProposalEntry) (spent : CAmount) (entries : List ProposalEntry)
    (keys : (items.map Prod.fst).Nodup) :
    allocate passes total items spent entries =
      (entries.map (allotment (items.filter fun it => passes it.2)
          ((Greedy.take (fun it : ProposalEntry => it.2.nAmount) total spent
            (items.filter fun it => passes it.2)).map Prod.fst)),
        (Greedy.take (fun it : ProposalEntry => it.2.nAmount) total spent
          (items.filter fun it => passes it.2)).map Prod.fst) := by
  induction items generalizing spent entries with
  | nil =>
      have same : allotment [] [] = id := rfl
      simp [allocate, Greedy.take, same]
  | cons it2 rest ih =>
      rw [List.map_cons, List.nodup_cons] at keys
      have absent : (rest.filter fun it => passes it.2).find? (fun other => other.1 == it2.1) =
          none := by
        rw [List.find?_eq_none]
        intro other inside
        rw [beq_iff_eq]
        intro same
        exact keys.1 (same ▸ List.mem_map_of_mem (List.mem_of_mem_filter inside))
      rw [allocate]
      cases passed : passes it2.2 with
      | false =>
          rw [if_neg Bool.false_ne_true, ih spent entries keys.2,
            List.filter_cons_of_neg (by simp [passed])]
      | true =>
          have kept : (it2 :: rest).filter (fun it => passes it.2) =
              it2 :: rest.filter fun it => passes it.2 := List.filter_cons_of_pos passed
          rw [if_pos rfl, kept, Greedy.take]
          by_cases fits : it2.2.nAmount + spent ≤ total
          · rw [if_pos fits, if_pos fits, ih _ _ keys.2, setAllotted, List.map_map]
            refine Prod.ext ?_ rfl
            apply List.map_congr_left
            intro it _
            rw [Function.comp_apply, List.map_cons]
            by_cases same : it.1 = it2.1
            · rw [if_pos same, allotment_of_absent (same ▸ absent), allotment_head same,
                if_pos (same ▸ List.mem_cons_self)]
            · rw [if_neg same, (allotment_cons same).2]
          · rw [if_neg fits, if_neg fits, ih _ _ keys.2, setAllotted, List.map_map]
            refine Prod.ext ?_ rfl
            apply List.map_congr_left
            intro it _
            rw [Function.comp_apply]
            by_cases same : it.1 = it2.1
            · rw [if_pos same, allotment_of_absent (same ▸ absent), allotment_head same,
                if_neg fun taken => keys.1 (same ▸ mem_taken taken)]
            · rw [if_neg same, (allotment_cons same).1]

/-! ## The sorted proposals -/

theorem map_fst_cleaned : (cleaned mnodeman entries).map Prod.fst = entries.map Prod.fst := by
  rw [cleaned, List.map_map]
  rfl

theorem map_fee_cleaned : (cleaned mnodeman entries).map (fun it => it.2.nFeeTXHash) =
    entries.map fun it => it.2.nFeeTXHash := by
  rw [cleaned, List.map_map]
  rfl

/-- The net votes of a proposal. -/
def netVotes (it : ProposalEntry) : Int := it.2.getYeas - it.2.getNays

theorem perm_sortedProposals (sorts : SortsByVotes sort) :
    (sortedProposals mnodeman sort entries).Perm (cleaned mnodeman entries) := by
  have mapped := (sorts.perm ((cleaned mnodeman entries).map fun it =>
    (it, it.2.getYeas - it.2.getNays))).map Prod.fst
  rw [List.map_map] at mapped
  exact mapped.trans (List.Perm.of_eq (List.map_id _))

theorem mem_sort (sorts : SortsByVotes sort) {item : ProposalEntry × Int}
    (inside : item ∈ sort ((cleaned mnodeman entries).map fun it =>
      (it, it.2.getYeas - it.2.getNays))) :
    item.1 ∈ cleaned mnodeman entries ∧ item.2 = netVotes item.1 := by
  obtain ⟨it, stored, rfl⟩ := List.mem_map.mp ((sorts.perm _).mem_iff.mp inside)
  exact ⟨stored, rfl⟩

/-- The votes go down. -/
theorem pairwise_sortedProposals (sorts : SortsByVotes sort) :
    (sortedProposals mnodeman sort entries).Pairwise fun left right =>
      netVotes right ≤ netVotes left := by
  refine List.pairwise_map.mpr ((sorts.sorted _).imp_of_mem ?_)
  intro left right leftIn rightIn ordered
  rw [← (mem_sort sorts leftIn).2, ← (mem_sort sorts rightIn).2]
  unfold sortsBefore at ordered
  split at ordered
  · simpa using ordered
  · rename_i tied
    exact (not_not.mp tied).le

/-- With distinct fee hashes there is one order. -/
theorem sortedProposals_congr (sorts : SortsByVotes sort)
    (fees : (entries.map fun it => it.2.nFeeTXHash).Nodup) {other : List ProposalEntry}
    (same : other.Perm entries) :
    sortedProposals mnodeman sort other = sortedProposals mnodeman sort entries := by
  have cleanedSame : (cleaned mnodeman other).Perm (cleaned mnodeman entries) := same.map _
  unfold sortedProposals
  congr 1
  refine List.Perm.eq_of_pairwise ?_ (sorts.sorted _) (sorts.sorted _)
    (((sorts.perm _).trans (cleanedSame.map _)).trans (sorts.perm _).symm)
  intro left right leftIn rightIn before after
  obtain ⟨leftStored, leftVotes⟩ := mem_sort sorts leftIn
  obtain ⟨rightStored, rightVotes⟩ := mem_sort sorts rightIn
  have tied : left.2 = right.2 ∧ left.1.2.nFeeTXHash = right.1.2.nFeeTXHash := by
    unfold sortsBefore at before after
    split at before
    · rename_i different
      rw [if_pos (Ne.symm different), decide_eq_false_iff_not, not_lt] at after
      rw [decide_eq_false_iff_not, not_lt] at before
      exact absurd (le_antisymm before after) different
    · rename_i votes
      have votesSame := not_not.mp votes
      rw [if_neg (not_not_intro votesSame.symm), decide_eq_false_iff_not] at after
      rw [decide_eq_false_iff_not] at before
      exact ⟨votesSame.symm, BitVec.le_antisymm (BitVec.not_lt.mp after) (BitVec.not_lt.mp before)⟩
  have together : left.1 = right.1 := by
    rw [← @map_fee_cleaned mnodeman] at fees
    exact List.inj_on_of_nodup_map fees (cleanedSame.mem_iff.mp leftStored) rightStored tied.2
  exact Prod.ext together tied.1

/-! ## The threshold -/

/-- A proposal above a tenth of a count passes by the count of zero. -/
theorem isPassing_iff {proposal : StoredProposal} {first last : Int} {mnCount : Nat} :
    proposal.isPassing node first last mnCount = true ↔
      proposal.isPassing node first last 0 = true ∧
        (mnCount : Int) / 10 < proposal.getYeas - proposal.getNays := by
  have tenth : (mnCount : Int).tdiv 10 = mnCount / 10 :=
    Int.tdiv_eq_ediv_of_nonneg (Int.natCast_nonneg _)
  unfold StoredProposal.isPassing
  rw [tenth, Int.zero_tdiv]
  split_ifs <;> simp <;> omega

theorem eligible_iff {mnCount : Nat} {it : ProposalEntry} :
    eligible node mnCount it = true ↔
      eligible node 0 it = true ∧ (mnCount : Int) / 10 < netVotes it := by
  unfold eligible
  cases node.tip with
  | none => simp
  | some pindexPrev => exact isPassing_iff

/-- The proposals above the threshold come first. -/
theorem filter_eligible (sorts : SortsByVotes sort) (mnCount : Nat) :
    (sortedProposals mnodeman sort entries).filter (eligible node 0) =
      (sortedProposals mnodeman sort entries).filter (eligible node mnCount) ++
        ((sortedProposals mnodeman sort entries).filter (eligible node 0)).filter
          fun it => !eligible node mnCount it := by
  have above : (sortedProposals mnodeman sort entries).filter
      (fun it => eligible node mnCount it && eligible node 0 it) =
        (sortedProposals mnodeman sort entries).filter (eligible node mnCount) := by
    apply List.filter_congr
    intro it _
    rw [Bool.eq_iff_iff, Bool.and_eq_true]
    exact and_iff_left_of_imp fun passes => (eligible_iff.mp passes).1
  have sorted : ((sortedProposals mnodeman sort entries).filter (eligible node 0)).Pairwise
      fun left right => netVotes right ≤ netVotes left :=
    (pairwise_sortedProposals sorts).filter _
  have split := @Greedy.filter_append_filter _ _ (eligible node mnCount) _ sorted (by
    intro left leftIn right rightIn votes passes
    have enough := (eligible_iff.mp passes).2
    exact eligible_iff.mpr ⟨List.of_mem_filter leftIn, by omega⟩)
  rw [List.filter_filter, above] at split
  exact split.symm

/-- The choice by the count of zero has the greedy one in front. -/
theorem greedy_zero_eq_iff (sorts : SortsByVotes sort) (mnCount : Nat) :
    (greedy node mnodeman sort entries 0).map Prod.fst =
        (greedy node mnodeman sort entries mnCount).map Prod.fst ↔
      ∀ it ∈ cleaned mnodeman entries, eligible node 0 it = true →
        eligible node mnCount it = false →
          getTotalBudget node < it.2.nAmount +
            Greedy.sum (fun it : ProposalEntry => it.2.nAmount)
              (greedy node mnodeman sort entries mnCount) := by
  obtain ⟨later, laterEq⟩ : ∃ later, later =
      ((sortedProposals mnodeman sort entries).filter (eligible node 0)).filter
        fun it => !eligible node mnCount it := ⟨_, rfl⟩
  have split := @filter_eligible node mnodeman sort entries sorts mnCount
  rw [← laterEq] at split
  have behind : (∀ it ∈ later, getTotalBudget node < it.2.nAmount +
          (0 + Greedy.sum (fun it : ProposalEntry => it.2.nAmount)
            (greedy node mnodeman sort entries mnCount))) ↔
      ∀ it ∈ cleaned mnodeman entries, eligible node 0 it = true →
        eligible node mnCount it = false →
          getTotalBudget node < it.2.nAmount +
            Greedy.sum (fun it : ProposalEntry => it.2.nAmount)
              (greedy node mnodeman sort entries mnCount) := by
    simp only [laterEq, List.mem_filter, (perm_sortedProposals sorts).mem_iff,
      Bool.not_eq_true', zero_add, and_imp]
  rw [← behind]
  unfold greedy
  rw [split, ← Greedy.take_append_eq_iff, Greedy.take_append,
    List.map_append, List.append_right_eq_self, List.append_right_eq_self, List.map_eq_nil_iff]

/-! ## The result -/

/-- In the map of the proposals an entry is found by its key. -/
theorem find?_filter (sorts : SortsByVotes sort) (keys : (entries.map Prod.fst).Nodup)
    {it : ProposalEntry} (stored : it ∈ cleaned mnodeman entries) (test : ProposalEntry → Bool) :
    ((sortedProposals mnodeman sort entries).filter test).find? (fun other => other.1 == it.1) =
      if test it then some it else none := by
  have unique (other : ProposalEntry)
      (inside : other ∈ (sortedProposals mnodeman sort entries).filter test)
      (same : other.1 = it.1) : other = it ∧ test it = true := by
    obtain ⟨listed, passed⟩ := List.mem_filter.mp inside
    rw [← @map_fst_cleaned mnodeman] at keys
    have together := List.inj_on_of_nodup_map keys
      ((perm_sortedProposals sorts).mem_iff.mp listed) stored same
    exact ⟨together, together ▸ passed⟩
  split
  · rename_i passes
    have inside : it ∈ (sortedProposals mnodeman sort entries).filter test :=
      List.mem_filter.mpr ⟨(perm_sortedProposals sorts).mem_iff.mpr stored, passes⟩
    cases found : ((sortedProposals mnodeman sort entries).filter test).find?
        (fun other => other.1 == it.1) with
    | none => exact absurd (beq_self_eq_true it.1) (List.find?_eq_none.mp found it inside)
    | some other =>
        rw [(unique other (List.mem_of_find?_eq_some found)
          (beq_iff_eq.mp (List.find?_some found :))).1]
  · rename_i fails
    rw [List.find?_eq_none]
    intro other inside
    rw [beq_iff_eq]
    exact fun same => fails (unique other inside same).2

/-- `GetBudget` chooses greedily by the count of zero, and allots to those that pass by it. -/
theorem getBudget_eq (sorts : SortsByVotes sort) (keys : (entries.map Prod.fst).Nodup) :
    getBudget node mnodeman sort entries =
      ((cleaned mnodeman entries).map fun it => if eligible node 0 it then
          (it.1, { it.2 with nAlloted :=
            if it.1 ∈ (greedy node mnodeman sort entries 0).map Prod.fst then it.2.nAmount else 0 })
          else it,
        (greedy node mnodeman sort entries 0).map Prod.fst) := by
  have sortedKeys : ((sortedProposals mnodeman sort entries).map Prod.fst).Nodup := by
    rw [((perm_sortedProposals sorts).map Prod.fst).nodup_iff, map_fst_cleaned]
    exact keys
  unfold getBudget greedy
  cases tip : node.tip with
  | none =>
      have nobody : eligible node 0 = fun _ => false := by
        funext it
        rw [eligible, tip]
      rw [nobody]
      simp [Greedy.take]
  | some pindexPrev =>
      have test :
          (fun it : ProposalEntry => passesAt node 0 pindexPrev it.2) = eligible node 0 := by
        funext it
        rw [eligible, tip]
      dsimp only
      rw [CMasternodeMan.countEnabled_eq, Nat.cast_zero, allocate_eq _ _ _ _ _ sortedKeys, test]
      refine Prod.ext ?_ rfl
      apply List.map_congr_left
      intro it stored
      rw [allotment, find?_filter sorts keys stored]
      split
      · rename_i found
        split at found
        · cases found
        · rename_i fails
          rw [if_neg fails]
      · rename_i found
        split at found
        · rename_i passes
          cases found
          rw [if_pos passes]
        · cases found

theorem eligible_of_mem_greedy (sorts : SortsByVotes sort)
    (keys : (entries.map Prod.fst).Nodup) {mnCount : Int} {it : ProposalEntry}
    (stored : it ∈ cleaned mnodeman entries)
    (taken : it.1 ∈ (greedy node mnodeman sort entries mnCount).map Prod.fst) :
    eligible node mnCount it = true := by
  obtain ⟨other, inside, same⟩ := List.mem_map.mp taken
  obtain ⟨listed, passes⟩ := List.mem_filter.mp ((Greedy.take_sublist _ _).subset inside)
  rw [← @map_fst_cleaned mnodeman] at keys
  rw [← List.inj_on_of_nodup_map keys ((perm_sortedProposals sorts).mem_iff.mp listed) stored same]
  exact passes

/-- The order of the map does not matter when the fee hashes are distinct. -/
theorem getBudget_perm (sorts : SortsByVotes sort) (keys : (entries.map Prod.fst).Nodup)
    (fees : (entries.map fun it => it.2.nFeeTXHash).Nodup) {other : List ProposalEntry}
    (same : other.Perm entries) :
    (getBudget node mnodeman sort other).2 = (getBudget node mnodeman sort entries).2 ∧
      (getBudget node mnodeman sort other).1.Perm (getBudget node mnodeman sort entries).1 := by
  have otherKeys : (other.map Prod.fst).Nodup := (same.map _).nodup_iff.mpr keys
  rw [getBudget_eq sorts keys, getBudget_eq sorts otherKeys]
  unfold greedy
  rw [sortedProposals_congr sorts fees same]
  have cleanedSame : (cleaned mnodeman other).Perm (cleaned mnodeman entries) := same.map _
  exact ⟨rfl, cleanedSame.map _⟩

/-- **The allocation of the budget** is the greedy one with a threshold of a tenth of the enabled
masternodes if and only if it is not affected by the count of zero. -/
theorem getBudget_allocatesGreedily_iff (node : NodeContext) (mnodeman : CMasternodeMan)
    (sort : List (ProposalEntry × Int) → List (ProposalEntry × Int)) (sorts : SortsByVotes sort)
    (entries : List ProposalEntry) (keys : (entries.map Prod.fst).Nodup) :
    AllocatesGreedily node mnodeman sort entries ↔ Unaffected node mnodeman sort entries := by
  have result := @getBudget_eq node mnodeman sort entries sorts keys
  constructor
  · rintro ⟨chosen, allotted, -⟩
    rw [result] at chosen allotted
    refine ⟨?_, (greedy_zero_eq_iff sorts _).mp chosen⟩
    intro it stored fails
    have left := allotted it (List.mem_map.mpr ⟨it, stored, if_neg (by simp [fails])⟩)
    rw [left, if_neg]
    intro taken
    have passes := (eligible_iff.mp (eligible_of_mem_greedy sorts keys stored taken)).1
    rw [fails] at passes
    cases passes
  · rintro ⟨unallotted, tooLarge⟩
    have chosen := (greedy_zero_eq_iff sorts _).mpr tooLarge
    refine ⟨by rw [result, chosen], ?_, fun fees other same => getBudget_perm sorts keys fees same⟩
    rw [result]
    intro it inside
    obtain ⟨before, stored, rfl⟩ := List.mem_map.mp inside
    by_cases passes : eligible node 0 before = true
    · rw [if_pos passes, chosen]
    · rw [if_neg passes, unallotted before stored (by simpa using passes), if_neg]
      intro taken
      exact passes (eligible_iff.mp (eligible_of_mem_greedy sorts keys stored taken)).1

/-! ## Examples -/

/-- A sort by votes and by fee hashes. -/
def insertionSortByVotes (items : List (ProposalEntry × Int)) : List (ProposalEntry × Int) :=
  items.insertionSort fun left right => sortsBefore right left = false

theorem sortsBefore_eq_false_iff {left right : ProposalEntry × Int} :
    sortsBefore right left = false ↔ right.2 < left.2 ∨
      (right.2 = left.2 ∧ right.1.2.nFeeTXHash.toNat ≤ left.1.2.nFeeTXHash.toNat) := by
  unfold sortsBefore
  split
  · rename_i different
    rw [decide_eq_false_iff_not]
    omega
  · rename_i same
    rw [decide_eq_false_iff_not, gt_iff_lt, BitVec.not_lt, BitVec.le_def]
    omega

theorem sortsByVotes_insertionSort : SortsByVotes insertionSortByVotes := by
  have total : Std.Total fun left right : ProposalEntry × Int =>
      sortsBefore right left = false := by
    refine ⟨fun left right => ?_⟩
    rw [sortsBefore_eq_false_iff, sortsBefore_eq_false_iff]
    omega
  have transitive : IsTrans (ProposalEntry × Int)
      fun left right => sortsBefore right left = false := by
    refine ⟨fun first second third before after => ?_⟩
    rw [sortsBefore_eq_false_iff] at before after ⊢
    omega
  exact ⟨fun items => List.perm_insertionSort _ items,
    fun items => List.pairwise_insertionSort _ items⟩

/-- A vote of a masternode. -/
def yesOf (index : Nat) : StoredProposalVote :=
  { vote :=
      { vin := { prevout := ⟨BitVec.ofNat 256 (1000 + index), 0⟩ }, nProposalHash := 7
        nVote := voteYes, nTime := 1599990000 } }

/-- An established proposal with a number of votes. -/
def proposalWith (votes : Nat) (nAmount : CAmount) : StoredProposal where
  nBlockStart := 0
  nBlockEnd := 1000000
  nAmount
  nFeeTXHash := BitVec.ofNat 256 votes
  nTime := 1500000000
  mapVotes := (List.range votes).map yesOf

/-- A proposal with three votes of twenty, and one without votes. -/
theorem getBudget_allocatesGreedily_three :
    AllocatesGreedily (NodeContext.mainNode 107999) CBudgetManager.twentyNodes
      insertionSortByVotes [(1, proposalWith 3 (50 * COIN)), (2, proposalWith 0 (50 * COIN))] := by
  refine (getBudget_allocatesGreedily_iff _ _ _ sortsByVotes_insertionSort _ (by decide)).mpr
    ⟨?_, ?_⟩
  · decide +kernel
  · decide +kernel

/-- One vote of twenty is less than a tenth, and the proposal is paid. -/
theorem not_getBudget_allocatesGreedily :
    ¬ ∀ (node : NodeContext) (mnodeman : CMasternodeMan)
      (sort : List (ProposalEntry × Int) → List (ProposalEntry × Int)), SortsByVotes sort →
      ∀ entries : List ProposalEntry, (entries.map Prod.fst).Nodup →
        AllocatesGreedily node mnodeman sort entries := by
  intro always
  have chosen := (always (NodeContext.mainNode 107999) CBudgetManager.twentyNodes
    insertionSortByVotes sortsByVotes_insertionSort [(1, proposalWith 1 (50 * COIN))]
    (by decide)).chosen
  revert chosen
  decide +kernel

end BudgetAllocation

end GiantCore
