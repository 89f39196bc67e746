import GiantCore.Budget.VoteGossip
import GiantCore.Foundation.Run

/-! # The votes that are counted

A node flags the votes of masternodes that are gone with `fValid = false` and keeps them. The
accessors of a proposal look at the flag. `GetVoteCount` of a finalized budget is the size of the
map of votes.
-/

namespace GiantCore

open GiantCore.Foundation.Run
open Ballot Votable

/-- A vote for a finalized budget with its flag: whether it is currently valid. -/
structure StoredVote where
  vote : CFinalizedBudgetVote
  fValid : Bool := true
  deriving DecidableEq, Repr

/-- A finalized budget with the flags of its votes. -/
structure StoredBudget where
  nBlockStart : Int
  vecBudgetPayments : List CTxBudgetPayment
  mapVotes : Std.ExtTreeMap Uint256 StoredVote := ∅

instance : Ballot StoredVote where
  vin stored := stored.vote.vin
  subject stored := stored.vote.nBudgetHash
  nTime stored := stored.vote.nTime
  vchSig stored := stored.vote.vchSig
  getHash hashes stored := getHash hashes stored.vote
  strMessage env stored := strMessage env stored.vote

instance : Votable StoredBudget StoredVote where
  mapVotes := StoredBudget.mapVotes
  withVotes budget mapVotes := { budget with mapVotes }
  mapVotes_withVotes _ _ := rfl

namespace BudgetEnv

/-- `CFinalizedBudgetVote::SignatureValid`. -/
def voteValid (env : BudgetEnv) (fSignatureCheck : Bool) (vote : CFinalizedBudgetVote) : Bool :=
  match env.mnodeman.find vote.vin with
  | none => false
  | some _ => if !fSignatureCheck then true else env.signatureValid vote

end BudgetEnv

namespace StoredBudget

variable (budget : StoredBudget)

/-- The budget that block production and validation look at. -/
def finalized : CFinalizedBudget where
  nBlockStart := budget.nBlockStart
  vecBudgetPayments := budget.vecBudgetPayments
  mapVotes := budget.mapVotes.map fun _ stored => stored.vote

/-- The votes with `fValid = true`, counted as `GetYeas` and `GetNays` count them. -/
def validVotes : Nat := budget.mapVotes.toList.countP fun it => it.2.fValid

def cleanAndRemove (env : BudgetEnv) (fSignatureCheck : Bool) : StoredBudget :=
  { budget with mapVotes := budget.mapVotes.map fun _ stored =>
      { stored with fValid := env.voteValid fSignatureCheck stored.vote } }

/-- Every vote of the budget meets a test. -/
def AllVotes (test : StoredVote → Prop) : Prop :=
  ∀ (key : Uint256) (stored : StoredVote), budget.mapVotes[key]? = some stored → test stored

theorem validVotes_eq_iff :
    budget.finalized.getVoteCount = budget.validVotes ↔
      budget.AllVotes fun stored => stored.fValid = true := by
  have size : budget.finalized.getVoteCount = (budget.mapVotes.toList.length : Int) := by
    rw [Std.ExtTreeMap.length_toList]
    exact congrArg Nat.cast Std.ExtTreeMap.size_map
  rw [size, validVotes, Int.natCast_inj, eq_comm, List.countP_eq_length]
  constructor
  · intro all key stored present
    exact all (key, stored) (Std.ExtTreeMap.mem_toList_iff_getElem?_eq_some.mpr present)
  · intro all it member
    exact all it.1 it.2 (Std.ExtTreeMap.mem_toList_iff_getElem?_eq_some.mp member)

theorem allVotes_cleanAndRemove_iff (env : BudgetEnv) (fSignatureCheck : Bool) :
    ((budget.cleanAndRemove env fSignatureCheck).AllVotes fun stored => stored.fValid = true) ↔
      budget.AllVotes fun stored => env.voteValid fSignatureCheck stored.vote = true := by
  unfold AllVotes cleanAndRemove
  constructor
  · intro all key stored present
    refine all key { stored with fValid := env.voteValid fSignatureCheck stored.vote } ?_
    rw [Std.ExtTreeMap.getElem?_map, present]
    rfl
  · intro all key stored present
    rw [Std.ExtTreeMap.getElem?_map, Option.map_eq_some_iff] at present
    obtain ⟨before, here, rfl⟩ := present
    exact all key before here

end StoredBudget

/-- What happens to the finalized budgets of a node, each in surroundings of its own. -/
inductive ElectionEvent where
  /-- A finalized budget from a peer. -/
  | fbs (nBlockStart : Int) (vecBudgetPayments : List CTxBudgetPayment)
  /-- A vote from a peer. -/
  | fbvote (vote : CFinalizedBudgetVote)
  /-- A vote of the node itself. -/
  | submitVote (vote : CFinalizedBudgetVote)
  | checkAndRemove
  | cleanAndRemove (fSignatureCheck : Bool)

/-- The maps of the finalized budgets. -/
abbrev ElectionTable := VoteTable StoredBudget StoredVote

namespace ElectionTable

open VoteTable

variable (hashes : BudgetHashes) (env : BudgetEnv) (table : ElectionTable)

/-- The tests of a finalized budget do not look at the votes. -/
def tests : ItemTests StoredBudget where
  isBudgetCollateralValid budget :=
    env.finalizedBudgetTests.isBudgetCollateralValid budget.finalized
  isValid budget := env.finalizedBudgetTests.isValid budget.finalized

def processFbs (budget : StoredBudget) : ElectionTable :=
  let (table, accepted) := table.processItem env (tests env)
    (hashes.finalizedBudget budget.finalized) budget
  if accepted then table.checkOrphanVotes hashes env else table

/-- The budgets that stay valid. -/
def checkAndRemove : ElectionTable :=
  { table with items := table.items.filter fun _ budget => (tests env).isValid budget }

def cleanAndRemove (fSignatureCheck : Bool) : ElectionTable :=
  { table with items := table.items.map fun _ budget =>
      budget.cleanAndRemove env fSignatureCheck }

def step (table : ElectionTable) (event : BudgetEnv × ElectionEvent) : ElectionTable :=
  match event.2 with
  | .fbs nBlockStart vecBudgetPayments =>
      processFbs hashes event.1 table { nBlockStart, vecBudgetPayments }
  | .fbvote vote => table.processVote hashes event.1 { vote }
  | .submitVote vote => (table.updateVote hashes event.1 { vote } false).1
  | .checkAndRemove => checkAndRemove event.1 table
  | .cleanAndRemove fSignatureCheck => cleanAndRemove event.1 table fSignatureCheck

/-- **The count of every budget is the number of its valid votes.** -/
def Counted (table : ElectionTable) : Prop :=
  ∀ (hash : Uint256) (budget : StoredBudget), table.items[hash]? = some budget →
    budget.finalized.getVoteCount = budget.validVotes

/-- Every vote of every budget is flagged as valid. -/
def AllValid (table : ElectionTable) : Prop :=
  ∀ (hash : Uint256) (budget : StoredBudget), table.items[hash]? = some budget →
    budget.AllVotes fun stored => stored.fValid = true

/-- Votes that wait for their budget are flagged as valid. -/
def OrphansValid (table : ElectionTable) : Prop :=
  ∀ (hash : Uint256) (stored : StoredVote), table.orphanVotes[hash]? = some stored →
    stored.fValid = true

/-- Every vote of every budget is valid when the votes are flagged. -/
def Unspoilt (table : ElectionTable) (event : BudgetEnv × ElectionEvent) : Prop :=
  match event.2 with
  | .cleanAndRemove fSignatureCheck =>
      ∀ (hash : Uint256) (budget : StoredBudget), table.items[hash]? = some budget →
        budget.AllVotes fun stored => event.1.voteValid fSignatureCheck stored.vote = true
  | _ => True

variable {hashes env table}

theorem counted_iff_allValid : Counted table ↔ AllValid table :=
  forall_congr' fun _ => forall_congr' fun budget => imp_congr_right fun _ =>
    budget.validVotes_eq_iff

/-! ## One event -/

theorem AllValid.updateVote (all : AllValid table) {stored : StoredVote}
    (valid : stored.fValid = true) (fromPeer : Bool) :
    AllValid (table.updateVote hashes env stored fromPeer).1 := by
  intro hash budget present
  rw [getElem?_items_updateVote] at present
  split at present
  · obtain ⟨before, here, rfl⟩ := Option.map_eq_some_iff.mp present
    unfold afterVote addOrUpdateVote
    split
    · intro key other inserted
      change (before.mapVotes.insert _ stored)[key]? = some other at inserted
      rw [Std.ExtTreeMap.getElem?_insert] at inserted
      split at inserted
      · rw [← Option.some.inj inserted]
        exact valid
      · exact all hash before here key other inserted
    · exact all hash before here
  · exact all hash budget present

theorem OrphansValid.updateVote (orphans : OrphansValid table) {stored : StoredVote}
    (valid : stored.fValid = true) (fromPeer : Bool) :
    OrphansValid (table.updateVote hashes env stored fromPeer).1 := by
  unfold VoteTable.updateVote
  split
  · split
    · intro hash other present
      dsimp only at present
      rw [Std.ExtTreeMap.getElem?_insert] at present
      split at present
      · rw [← Option.some.inj present]
        exact valid
      · exact orphans hash other present
    · exact orphans
  · split <;> exact orphans

/-- The two properties together, as the loop over the orphans needs them. -/
theorem checkOrphanVote_keeps (hashes : BudgetHashes) (env : BudgetEnv)
    (orphans : OrphansValid table) {it : Uint256 × StoredVote}
    (valid : it.2.fValid = true) :
    OrphansValid (table.checkOrphanVote hashes env it) ∧
      (AllValid table → AllValid (table.checkOrphanVote hashes env it)) := by
  constructor
  · unfold checkOrphanVote
    dsimp only
    split
    · intro hash other present
      dsimp only at present
      rw [Std.ExtTreeMap.getElem?_erase] at present
      split at present
      · cases present
      · exact orphans.updateVote valid false hash other present
    · exact orphans.updateVote valid false
  · intro all hash budget present
    rw [items_checkOrphanVote] at present
    exact all.updateVote valid false hash budget present

theorem foldl_checkOrphanVote_keeps {votes : List (Uint256 × StoredVote)}
    (valid : ∀ it ∈ votes, it.2.fValid = true) (orphans : OrphansValid table) :
    OrphansValid (votes.foldl (fun table it => table.checkOrphanVote hashes env it) table) ∧
      (AllValid table →
        AllValid (votes.foldl (fun table it => table.checkOrphanVote hashes env it) table)) := by
  induction votes generalizing table with
  | nil => exact ⟨orphans, id⟩
  | cons it rest ih =>
      rw [List.forall_mem_cons] at valid
      have first := checkOrphanVote_keeps hashes env orphans valid.1
      have later := ih valid.2 first.1
      exact ⟨later.1, later.2 ∘ first.2⟩

theorem checkOrphanVotes_keeps (hashes : BudgetHashes) (env : BudgetEnv)
    (orphans : OrphansValid table) :
    OrphansValid (table.checkOrphanVotes hashes env) ∧
      (AllValid table → AllValid (table.checkOrphanVotes hashes env)) :=
  foldl_checkOrphanVote_keeps (fun it member => orphans it.1 it.2
    (Std.ExtTreeMap.mem_toList_iff_getElem?_eq_some.mp member)) orphans

/-- A new budget has no votes. -/
theorem processItem_keeps (tests : ItemTests StoredBudget) (hash : Uint256) {budget : StoredBudget}
    (noVotes : budget.mapVotes = ∅) :
    (table.processItem env tests hash budget).1.orphanVotes = table.orphanVotes ∧
      (AllValid table → AllValid (table.processItem env tests hash budget).1) := by
  unfold processItem
  split
  · split
    · exact ⟨rfl, id⟩
    · split
      · exact ⟨rfl, id⟩
      · dsimp only
        split
        · exact ⟨rfl, id⟩
        · refine ⟨rfl, fun all other stored present => ?_⟩
          dsimp only at present
          rw [Std.ExtTreeMap.getElem?_insertIfNew] at present
          split at present
          · rw [← Option.some.inj present]
            intro key vote here
            rw [noVotes] at here
            cases here.symm.trans Std.ExtTreeMap.getElem?_empty
          · exact all other stored present
  · exact ⟨rfl, id⟩

theorem processFbs_keeps (orphans : OrphansValid table) {budget : StoredBudget}
    (noVotes : budget.mapVotes = ∅) :
    OrphansValid (processFbs hashes env table budget) ∧
      (AllValid table → AllValid (processFbs hashes env table budget)) := by
  obtain ⟨same, all⟩ :=
    processItem_keeps (tests env) (hashes.finalizedBudget budget.finalized) noVotes
  have item : OrphansValid (table.processItem env (tests env)
      (hashes.finalizedBudget budget.finalized) budget).1 :=
    fun hash stored present => orphans hash stored (same ▸ present)
  unfold processFbs
  dsimp only
  split
  · have later := checkOrphanVotes_keeps hashes env item
    exact ⟨later.1, later.2 ∘ all⟩
  · exact ⟨item, all⟩

theorem processVote_keeps (orphans : OrphansValid table) {stored : StoredVote}
    (valid : stored.fValid = true) :
    OrphansValid (table.processVote hashes env stored) ∧
      (AllValid table → AllValid (table.processVote hashes env stored)) := by
  rw [processVote_eq]
  split
  · split
    · have marked : OrphansValid (table.mark hashes stored) := orphans
      refine ⟨marked.updateVote valid true, fun all => ?_⟩
      have same : AllValid (table.mark hashes stored) := all
      exact same.updateVote valid true
    · exact ⟨orphans, id⟩
  · exact ⟨orphans, id⟩

theorem orphansValid_step (orphans : OrphansValid table) (event : BudgetEnv × ElectionEvent) :
    OrphansValid (step hashes table event) := by
  obtain ⟨env, event⟩ := event
  cases event with
  | fbs nBlockStart vecBudgetPayments => exact (processFbs_keeps orphans rfl).1
  | fbvote vote => exact (processVote_keeps orphans rfl).1
  | submitVote vote => exact orphans.updateVote rfl false
  | checkAndRemove => exact orphans
  | cleanAndRemove fSignatureCheck => exact orphans

theorem AllValid.cleanAndRemove_iff (env : BudgetEnv) (fSignatureCheck : Bool) :
    AllValid (cleanAndRemove env table fSignatureCheck) ↔
      Unspoilt table (env, .cleanAndRemove fSignatureCheck) := by
  constructor
  · intro all hash budget present
    refine (budget.allVotes_cleanAndRemove_iff env fSignatureCheck).mp (all hash _ ?_)
    dsimp only [cleanAndRemove]
    rw [Std.ExtTreeMap.getElem?_map, present]
    rfl
  · intro unspoilt hash budget present
    dsimp only [cleanAndRemove] at present
    rw [Std.ExtTreeMap.getElem?_map, Option.map_eq_some_iff] at present
    obtain ⟨before, here, rfl⟩ := present
    exact (before.allVotes_cleanAndRemove_iff env fSignatureCheck).mpr (unspoilt hash before here)

theorem AllValid.step_iff (orphans : OrphansValid table) (all : AllValid table)
    (event : BudgetEnv × ElectionEvent) :
    AllValid (step hashes table event) ↔ Unspoilt table event := by
  obtain ⟨env, event⟩ := event
  cases event with
  | fbs nBlockStart vecBudgetPayments =>
      exact iff_true_intro ((processFbs_keeps orphans rfl).2 all)
  | fbvote vote => exact iff_true_intro ((processVote_keeps orphans rfl).2 all)
  | submitVote vote => exact iff_true_intro (all.updateVote rfl false)
  | checkAndRemove =>
      refine iff_true_intro fun hash budget present => ?_
      dsimp only [step, checkAndRemove] at present
      rw [Std.ExtTreeMap.getElem?_filter'] at present
      exact all hash budget (Option.eq_some_of_filter_eq_some present)
  | cleanAndRemove fSignatureCheck => exact AllValid.cleanAndRemove_iff env fSignatureCheck

/-! ## Whole runs -/

variable (hashes)

/-- **The counts are right in every state of a run** if and only if the votes that the budgets have
are all valid whenever they are flagged. -/
theorem counted_iff_unspoilt (events : List (BudgetEnv × ElectionEvent)) :
    (∀ table ∈ states (step hashes) {} events, Counted table) ↔
      AllSteps (step hashes) Unspoilt {} events := by
  have keeps : ∀ table event, True → OrphansValid table → Counted table →
      (Counted (step hashes table event) ↔ Unspoilt table event) := by
    intro table event _ orphans counted
    rw [counted_iff_allValid] at counted ⊢
    exact counted.step_iff orphans event
  refine forall_states_iff OrphansValid Counted
    (fun _ event orphans => orphansValid_step orphans event) keeps ?_ ?_ (fun _ _ => trivial)
  · intro hash stored present
    cases present.symm.trans Std.ExtTreeMap.getElem?_empty
  · intro hash budget present
    cases present.symm.trans Std.ExtTreeMap.getElem?_empty

/-- A masternode votes for a budget and leaves. -/
def leavingVoter : List (BudgetEnv × ElectionEvent) :=
  [(BudgetTables.votingEnv, .fbs 21600 [⟨9, [0x51], 50 * COIN⟩]),
    (BudgetTables.votingEnv, .fbvote
      { vin := { prevout := ⟨1000, 0⟩ }, nBudgetHash := 8, nTime := 1599990000, vchSig := [0, 1] }),
    ({ BudgetTables.votingEnv with mnodeman := ⟨[]⟩ }, .cleanAndRemove false)]

/-- Its vote is flagged as invalid and counts. -/
theorem not_counted_leavingVoter :
    ¬ ∀ table ∈ states (step BudgetTables.sumHashes) {} leavingVoter, Counted table := by
  intro every
  have counted := every _ (foldl_mem_states _ _)
  have counts : ((leavingVoter.foldl (step BudgetTables.sumHashes) {}).items[(8 : Uint256)]?.map
      fun budget => (budget.finalized.getVoteCount, budget.validVotes)) = some (1, 0) := by
    decide
  obtain ⟨budget, present, both⟩ := Option.map_eq_some_iff.mp counts
  have same := counted 8 budget present
  rw [(Prod.mk.inj both).1, (Prod.mk.inj both).2] at same
  cases same

end ElectionTable

end GiantCore
