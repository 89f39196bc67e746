import GiantCore.Budget.Budget

/-! # Budget votes from the network

The handlers of `mprop`, `mvote`, `fbs` and `fbvote` in `CBudgetManager`. A vote
for a proposal that is known goes into its `mapVotes`. A vote that arrives first
waits in an orphan map until `CheckOrphanVotes` finds its proposal.

Proposals and finalized budgets are handled alike, so one table serves both kinds.
The orphan map is keyed by the proposal and not by the vote, so that a table holds
one orphan for each proposal; and a vote is marked as seen before its signature is
checked. The results below say what follows from these two choices.
-/

namespace GiantCore

/-- A masternode's vote on a proposal. -/
structure CBudgetVote where
  vin : CTxIn
  nProposalHash : Uint256
  nVote : Int
  nTime : Int
  vchSig : List UInt8 := []
  deriving DecidableEq, Repr

structure CBudgetProposal where
  strProposalName : String
  strURL : String
  nBlockStart : Int
  nBlockEnd : Int
  nAmount : CAmount
  address : CScript
  nFeeTXHash : Uint256
  mapVotes : Std.ExtTreeMap Uint256 CBudgetVote := ∅

/-- The hashes by which the maps are keyed. -/
structure BudgetHashes where
  /-- `COutPoint::GetHash`. -/
  outpoint : COutPoint → Uint256
  /-- The hash of the voter, the proposal, the vote and its time. -/
  budgetVote : CTxIn → Uint256 → Int → Int → Uint256
  /-- The hash of the voter, the budget and the time. -/
  finalizedBudgetVote : CTxIn → Uint256 → Int → Uint256
  proposal : CBudgetProposal → Uint256
  finalizedBudget : CFinalizedBudget → Uint256

/-- The tests of a new proposal or finalized budget. -/
structure ItemTests (ι : Type) where
  /-- `IsBudgetCollateralValid`. -/
  isBudgetCollateralValid : ι → Bool
  isValid : ι → Bool

/-- What a handler reads and does not change. -/
structure BudgetEnv where
  node : NodeContext
  mnodeman : CMasternodeMan
  /-- `uint256::ToString`. -/
  hashText : Uint256 → String
  proposalTests : ItemTests CBudgetProposal
  finalizedBudgetTests : ItemTests CFinalizedBudget

/-- What the two kinds of votes have in common. -/
class Ballot (β : Type) where
  vin : β → CTxIn
  /-- The hash of the proposal or of the finalized budget. -/
  subject : β → Uint256
  nTime : β → Int
  vchSig : β → List UInt8
  /-- `GetHash`. The signature is no part of it. -/
  getHash : BudgetHashes → β → Uint256
  /-- The text that the voter signs. -/
  strMessage : BudgetEnv → β → String

/-- What is voted on: something with a map of votes. -/
class Votable (ι : Type) (β : outParam Type) where
  mapVotes : ι → Std.ExtTreeMap Uint256 β
  withVotes : ι → Std.ExtTreeMap Uint256 β → ι
  mapVotes_withVotes : ∀ item votes, mapVotes (withVotes item votes) = votes

open Ballot Votable

attribute [simp] Votable.mapVotes_withVotes

instance : Ballot CBudgetVote where
  vin := CBudgetVote.vin
  subject := CBudgetVote.nProposalHash
  nTime := CBudgetVote.nTime
  vchSig := CBudgetVote.vchSig
  getHash hashes vote := hashes.budgetVote vote.vin vote.nProposalHash vote.nVote vote.nTime
  strMessage env vote := env.node.outpointText vote.vin.prevout ++
    env.hashText vote.nProposalHash ++ toString vote.nVote ++ toString vote.nTime

instance : Ballot CFinalizedBudgetVote where
  vin := CFinalizedBudgetVote.vin
  subject := CFinalizedBudgetVote.nBudgetHash
  nTime := CFinalizedBudgetVote.nTime
  vchSig := CFinalizedBudgetVote.vchSig
  getHash hashes vote := hashes.finalizedBudgetVote vote.vin vote.nBudgetHash vote.nTime
  strMessage env vote := env.node.outpointText vote.vin.prevout ++
    env.hashText vote.nBudgetHash ++ toString vote.nTime

instance : Votable CBudgetProposal CBudgetVote where
  mapVotes := CBudgetProposal.mapVotes
  withVotes proposal mapVotes := { proposal with mapVotes }
  mapVotes_withVotes _ _ := rfl

instance : Votable CFinalizedBudget CFinalizedBudgetVote where
  mapVotes := CFinalizedBudget.mapVotes
  withVotes finalized mapVotes := { finalized with mapVotes }
  mapVotes_withVotes _ _ := rfl

namespace BudgetEnv

variable (env : BudgetEnv)

/-- The tests at the start of `CBudgetManager::ProcessMessage`. -/
def handles : Bool := !env.node.fLiteMode && env.node.isBlockchainSynced

/-- `SignatureValid`, of a vote of either kind. -/
def signatureValid {β : Type} [Ballot β] (vote : β) : Bool :=
  match env.mnodeman.find (vin vote) with
  | none => false
  | some pmn => env.node.verifyMessage pmn.pubKeyMasternode (vchSig vote) (strMessage env vote)

end BudgetEnv

/-- The maps of the budget manager for one kind of item. -/
structure VoteTable (ι β : Type) where
  /-- `mapProposals`, `mapFinalizedBudgets`. -/
  items : Std.ExtTreeMap Uint256 ι := ∅
  /-- `mapSeenMasternodeBudgetProposals`, `mapSeenFinalizedBudgets`. -/
  seenItems : Std.ExtTreeMap Uint256 ι := ∅
  /-- `mapSeenMasternodeBudgetVotes`, `mapSeenFinalizedBudgetVotes`. -/
  seenVotes : Std.ExtTreeMap Uint256 β := ∅
  /-- `mapOrphanMasternodeBudgetVotes`, `mapOrphanFinalizedBudgetVotes`. -/
  orphanVotes : Std.ExtTreeMap Uint256 β := ∅

namespace VoteTable

/-- `BUDGET_VOTE_UPDATE_MIN`. -/
def budgetVoteUpdateMin : Int := 60 * 60

variable {ι β : Type} [Ballot β] [Votable ι β]

/-- A vote that the item has from the same masternode stands in the way: it is newer,
or the new one comes too soon after it. The times are 64-bit numbers, and so is their difference. -/
def isTooSoon (vote existing : β) : Bool :=
  nTime existing > nTime vote ||
    (nTime vote - nTime existing).bmod (2 ^ 64) < budgetVoteUpdateMin

/-- The tests of `AddOrUpdateVote`. -/
def takesVote (hashes : BudgetHashes) (now : Int) (item : ι) (vote : β) : Bool :=
  !((mapVotes item)[hashes.outpoint (vin vote).prevout]?.any (isTooSoon vote)) &&
    !(nTime vote > now + 60 * 60)

/-- `AddOrUpdateVote`. -/
def addOrUpdateVote (hashes : BudgetHashes) (now : Int) (item : ι) (vote : β) : Option ι :=
  if takesVote hashes now item vote then
    some (withVotes item ((mapVotes item).insert (hashes.outpoint (vin vote).prevout) vote))
  else none

variable (hashes : BudgetHashes) (env : BudgetEnv) (table : VoteTable ι β)

/-- `UpdateProposal` and `UpdateFinalizedBudget`, and whether the vote was counted. A
vote for an unknown item that comes from a peer becomes the orphan of the item. -/
def updateVote (vote : β) (fromPeer : Bool) : VoteTable ι β × Bool :=
  match table.items[subject vote]? with
  | none =>
      if fromPeer && env.node.isSynced then
        ({ table with orphanVotes := table.orphanVotes.insert (subject vote) vote }, false)
      else (table, false)
  | some item =>
      match addOrUpdateVote hashes env.node.time item vote with
      | none => (table, false)
      | some updated => ({ table with items := table.items.insert (subject vote) updated }, true)

/-- One round of the loop of `CheckOrphanVotes`. -/
def checkOrphanVote (it : Uint256 × β) : VoteTable ι β :=
  let (table, counted) := table.updateVote hashes env it.2 false
  if counted then { table with orphanVotes := table.orphanVotes.erase it.1 } else table

/-- The loop of `CheckOrphanVotes` for one kind. -/
def checkOrphanVotes : VoteTable ι β :=
  table.orphanVotes.toList.foldl (fun table it => table.checkOrphanVote hashes env it) table

/-- The `mvote` and `fbvote` handlers. -/
def processVote (vote : β) : VoteTable ι β :=
  if env.handles then
    if table.seenVotes.contains (getHash hashes vote) then table
    else
      match env.mnodeman.find (vin vote) with
      | none => table
      | some _ =>
          let table := { table with
            seenVotes := table.seenVotes.insert (getHash hashes vote) vote }
          if !env.signatureValid vote then table
          else (table.updateVote hashes env vote true).1
  else table

/-- The `mprop` and `fbs` handlers, up to `CheckOrphanVotes`: the table, and whether
the handler goes on. -/
def processItem (tests : ItemTests ι) (hash : Uint256) (item : ι) : VoteTable ι β × Bool :=
  if env.handles then
    if table.seenItems.contains hash then (table, false)
    else if !tests.isBudgetCollateralValid item then (table, false)
    else
      let table := { table with seenItems := table.seenItems.insert hash item }
      if !tests.isValid item then (table, false)
      else ({ table with items := table.items.insertIfNew hash item }, true)
  else (table, false)

end VoteTable

/-- The maps of the budget manager. -/
structure BudgetTables where
  proposals : VoteTable CBudgetProposal CBudgetVote := {}
  finalizedBudgets : VoteTable CFinalizedBudget CFinalizedBudgetVote := {}

/-- The messages that budgets are made of. -/
inductive BudgetMessage where
  | mprop (proposal : CBudgetProposal)
  | mvote (vote : CBudgetVote)
  | fbs (finalized : CFinalizedBudget)
  | fbvote (vote : CFinalizedBudgetVote)

namespace BudgetTables

variable (hashes : BudgetHashes) (env : BudgetEnv) (tables : BudgetTables)

/-- `CheckOrphanVotes`. -/
def checkOrphanVotes : BudgetTables where
  proposals := tables.proposals.checkOrphanVotes hashes env
  finalizedBudgets := tables.finalizedBudgets.checkOrphanVotes hashes env

def processMprop (proposal : CBudgetProposal) : BudgetTables :=
  let (proposals, accepted) := tables.proposals.processItem env env.proposalTests
    (hashes.proposal proposal) proposal
  let tables := { tables with proposals }
  if accepted then tables.checkOrphanVotes hashes env else tables

def processMvote (vote : CBudgetVote) : BudgetTables :=
  { tables with proposals := tables.proposals.processVote hashes env vote }

def processFbs (finalized : CFinalizedBudget) : BudgetTables :=
  let (finalizedBudgets, accepted) := tables.finalizedBudgets.processItem env
    env.finalizedBudgetTests (hashes.finalizedBudget finalized) finalized
  let tables := { tables with finalizedBudgets }
  if accepted then tables.checkOrphanVotes hashes env else tables

def processFbvote (vote : CFinalizedBudgetVote) : BudgetTables :=
  { tables with finalizedBudgets := tables.finalizedBudgets.processVote hashes env vote }

/-- `CBudgetManager::ProcessMessage`. -/
def processMessage : BudgetMessage → BudgetTables
  | .mprop proposal => tables.processMprop hashes env proposal
  | .mvote vote => tables.processMvote hashes env vote
  | .fbs finalized => tables.processFbs hashes env finalized
  | .fbvote vote => tables.processFbvote hashes env vote

/-- One message, in surroundings of its own. -/
def step (tables : BudgetTables) (event : BudgetEnv × BudgetMessage) : BudgetTables :=
  tables.processMessage hashes event.1 event.2

end BudgetTables

/-! ## One message -/

namespace VoteTable

variable {ι β : Type} [Ballot β] [Votable ι β]

section

variable (hashes : BudgetHashes) (env : BudgetEnv) (table : VoteTable ι β)

/-- The node has room for a new vote: it handles the message, the vote is new to it and
the masternode known. -/
def marks (vote : β) : Bool :=
  env.handles && !table.seenVotes.contains (getHash hashes vote) &&
    (env.mnodeman.find (vin vote)).isSome

/-- The table with a vote marked as seen. -/
def mark (vote : β) : VoteTable ι β :=
  { table with seenVotes := table.seenVotes.insert (getHash hashes vote) vote }

/-- What the handler of a vote does. -/
theorem processVote_eq (vote : β) :
    table.processVote hashes env vote =
      if table.marks hashes env vote then
        if env.signatureValid vote then
          ((table.mark hashes vote).updateVote hashes env vote true).1
        else table.mark hashes vote
      else table := by
  unfold processVote marks mark
  cases env.handles with
  | false => simp
  | true =>
      cases table.seenVotes.contains (getHash hashes vote) with
      | true => simp
      | false =>
          cases env.mnodeman.find (vin vote) with
          | none => simp
          | some pmn =>
              cases env.signatureValid vote with
              | true => simp
              | false => simp

/-- A vote that the table has marked does nothing. -/
theorem processVote_of_seen {vote : β}
    (seen : table.seenVotes.contains (getHash hashes vote) = true) :
    table.processVote hashes env vote = table := by
  rw [processVote_eq, if_neg]
  simp [marks, seen]

/-- The vote would be counted: its item is known and takes it. -/
def counts (vote : β) : Bool :=
  table.items[subject vote]?.any fun item => takesVote hashes env.node.time item vote

theorem items_updateVote (vote : β) (fromPeer : Bool) :
    (table.updateVote hashes env vote fromPeer).1.items = table.items ↔
      ¬ table.counts hashes env vote = true := by
  unfold updateVote counts
  cases known : table.items[subject vote]? with
  | none =>
      simp only [Option.any_none, Bool.false_eq_true, not_false_eq_true, iff_true]
      split <;> rfl
  | some item =>
      simp only [Option.any_some, addOrUpdateVote]
      cases taken : takesVote hashes env.node.time item vote with
      | false => simp
      | true =>
          simp only [↓reduceIte, not_true_eq_false, iff_false]
          intro same
          -- the item would have had this very vote, which comes too soon after itself
          have found := congrArg (·[subject vote]?) same
          simp only [Std.ExtTreeMap.getElem?_insert_self, known, Option.some.injEq] at found
          have votes := congrArg (fun item => (mapVotes item)[hashes.outpoint (vin vote).prevout]?)
            found
          simp only [mapVotes_withVotes, Std.ExtTreeMap.getElem?_insert_self] at votes
          rw [takesVote, ← votes] at taken
          simp [isTooSoon, budgetVoteUpdateMin] at taken

end

/-- **A forged copy shuts out the vote.** If a vote is preceded by one with the same
hash and voter and a bad signature, the items end up as if it came alone exactly when
the copy is not marked as seen, or the vote would not be counted anyway. -/
theorem items_after_forged_iff (hashes : BudgetHashes) {env env' : BudgetEnv}
    (table : VoteTable ι β) (vote forged : β)
    (sameHash : getHash hashes forged = getHash hashes vote)
    (invalid : env'.signatureValid forged = false) (valid : env.signatureValid vote = true) :
    ((table.processVote hashes env' forged).processVote hashes env vote).items =
        (table.processVote hashes env vote).items ↔
      ¬ (table.marks hashes env' forged = true ∧ table.marks hashes env vote = true ∧
        table.counts hashes env vote = true) := by
  rw [table.processVote_eq hashes env' forged]
  cases marked : table.marks hashes env' forged with
  | false => simp
  | true =>
      have seen : (table.mark hashes forged).seenVotes.contains (getHash hashes vote) = true := by
        simp [mark, sameHash]
      simp only [invalid, ↓reduceIte, Bool.false_eq_true, processVote_of_seen hashes env _ seen,
        true_and]
      rw [processVote_eq]
      cases alone : table.marks hashes env vote with
      | false => simp [mark]
      | true =>
          have counted := items_updateVote hashes env (table.mark hashes vote) vote true
          simp only [valid, ↓reduceIte, true_and]
          rw [eq_comm]
          exact counted

/-! ## Votes before and after their item -/

/-- The key of a vote in `mapVotes`. -/
def voter (hashes : BudgetHashes) (vote : β) : Uint256 := hashes.outpoint (vin vote).prevout

/-- A vote on an item, correctly signed by a known masternode, reaches a node that handles it. -/
structure Arrives (hash : Uint256) (arrival : BudgetEnv × β) : Prop where
  handled : arrival.1.handles = true
  signed : arrival.1.signatureValid arrival.2 = true
  on : subject arrival.2 = hash

/-- The votes that arrive one after the other, each in surroundings of its own. -/
def receive (hashes : BudgetHashes) (table : VoteTable ι β) (arrivals : List (BudgetEnv × β)) :
    VoteTable ι β :=
  arrivals.foldl (fun table arrival => table.processVote hashes arrival.1 arrival.2) table

/-- Each orphan waits under its own item. -/
def Filed (table : VoteTable ι β) : Prop :=
  ∀ {key : Uint256} {vote}, table.orphanVotes[key]? = some vote → subject vote = key

section

variable {hashes : BudgetHashes} {env : BudgetEnv} {table : VoteTable ι β} {hash : Uint256}

/-- A vote that arrives and is new is marked and goes on to its item. -/
theorem processVote_of_arrives {vote : β} (arrives : Arrives hash (env, vote))
    (new : table.seenVotes.contains (getHash hashes vote) = false) :
    table.processVote hashes env vote =
      ((table.mark hashes vote).updateVote hashes env vote true).1 := by
  have signed : env.signatureValid vote = true := arrives.signed
  have known : (env.mnodeman.find (vin vote)).isSome = true := by
    cases found : env.mnodeman.find (vin vote) with
    | none =>
        rw [BudgetEnv.signatureValid, found] at signed
        cases signed
    | some pmn => rfl
  have marked : table.marks hashes env vote = true := by
    simp only [marks, new, known, Bool.not_false, Bool.and_true]
    exact arrives.handled
  rw [processVote_eq, if_pos marked, if_pos signed]

omit [Votable ι β] in
/-- Marking a vote leaves other votes as new as they were. -/
theorem contains_seenVotes_mark {vote : β} {other : Uint256}
    (different : other ≠ getHash hashes vote)
    (new : table.seenVotes.contains other = false) :
    (table.mark hashes vote).seenVotes.contains other = false := by
  simp only [mark, Std.ExtTreeMap.contains_insert, new, Bool.or_false, beq_eq_false_iff_ne, ne_eq,
    Std.LawfulEqCmp.compare_eq_iff_eq]
  exact fun same => different same.symm

/-- While the item is unknown, the last vote is its orphan, and nothing else happens. -/
theorem receive_of_unknown (table : VoteTable ι β) {arrivals : List (BudgetEnv × β)}
    (unknown : table.items[hash]? = none) (good : ∀ arrival ∈ arrivals, Arrives hash arrival)
    (synced : ∀ arrival ∈ arrivals, arrival.1.node.isSynced = true)
    (new : ∀ arrival ∈ arrivals, table.seenVotes.contains (getHash hashes arrival.2) = false)
    (distinct : (arrivals.map fun arrival => getHash hashes arrival.2).Nodup) :
    (receive hashes table arrivals).items = table.items ∧
      (receive hashes table arrivals).seenItems = table.seenItems ∧
      (∀ key : Uint256, (receive hashes table arrivals).orphanVotes[key]? =
        if key = hash then (arrivals.getLast?.map Prod.snd).or table.orphanVotes[key]?
        else table.orphanVotes[key]?) ∧
      ∀ other, other ∉ arrivals.map (fun arrival => getHash hashes arrival.2) →
        table.seenVotes.contains other = false →
          (receive hashes table arrivals).seenVotes.contains other = false := by
  induction arrivals generalizing table with
  | nil =>
      refine ⟨rfl, rfl, ?_, fun other _ unseen => unseen⟩
      intro key
      split <;> rfl
  | cons arrival rest ih =>
      rw [List.forall_mem_cons] at good synced new
      rw [List.map_cons, List.nodup_cons] at distinct
      have next : table.processVote hashes arrival.1 arrival.2 =
          { table.mark hashes arrival.2 with
            orphanVotes := table.orphanVotes.insert hash arrival.2 } := by
        have missing : (table.mark hashes arrival.2).items[hash]? = none := unknown
        rw [processVote_of_arrives good.1 new.1, updateVote, good.1.on, missing]
        simp only [synced.1, Bool.and_self, ↓reduceIte]
        rfl
      have later : ∀ other ∈ rest,
          (table.mark hashes arrival.2).seenVotes.contains (getHash hashes other.2) = false := by
        intro other member
        apply contains_seenVotes_mark
        · intro same
          exact distinct.1 (List.mem_map.mpr ⟨other, member, same⟩)
        · exact new.2 other member
      obtain ⟨items, seenItems, orphans, seen⟩ := ih { table.mark hashes arrival.2 with
        orphanVotes := table.orphanVotes.insert hash arrival.2 } unknown good.2 synced.2
          later distinct.2
      rw [receive, List.foldl_cons, next]
      refine ⟨items, seenItems, ?_, ?_⟩
      · intro key
        rw [receive] at orphans
        rw [orphans key, List.getLast?_cons, Std.ExtTreeMap.getElem?_insert]
        simp only [Std.LawfulEqCmp.compare_eq_iff_eq]
        by_cases same : key = hash
        · subst same
          cases rest.getLast? with
          | none => simp
          | some last => simp
        · have different : ¬ hash = key := fun equal => same equal.symm
          simp [same, different]
      · intro other elsewhere unseen
        rw [List.map_cons, List.mem_cons, not_or] at elsewhere
        exact seen other elsewhere.2 (contains_seenVotes_mark elsewhere.1 unseen)

/-- The time of a vote is at most an hour ahead of the clock. -/
def Timely (now : Int) (vote : β) : Prop := nTime vote ≤ now + 60 * 60

instance (now : Int) (vote : β) : Decidable (Timely now vote) :=
  inferInstanceAs (Decidable (nTime vote ≤ now + 60 * 60))

/-- The first vote of a masternode is taken if it is timely. -/
theorem addOrUpdateVote_of_first {now : Int} {item : ι} {vote : β}
    (first : (mapVotes item)[voter hashes vote]? = none) :
    addOrUpdateVote hashes now item vote =
      if Timely now vote then
        some (withVotes item ((mapVotes item).insert (voter hashes vote) vote))
      else none := by
  have same : takesVote hashes now item vote = decide (Timely now vote) := by
    rw [voter] at first
    rw [takesVote, first, Bool.eq_iff_iff, decide_eq_true_iff]
    simp [Timely]
  rw [addOrUpdateVote, same]
  by_cases timely : Timely now vote
  · simp [timely, voter]
  · simp [timely]

/-- The item after a vote on it, counted or not. -/
def afterVote (hashes : BudgetHashes) (now : Int) (vote : β) (item : ι) : ι :=
  (addOrUpdateVote hashes now item vote).getD item

/-- The votes of an item after the first vote of a masternode. -/
theorem getElem?_mapVotes_afterVote (now : Int) {item : ι} {vote : β}
    (first : (mapVotes item)[voter hashes vote]? = none) (key : Uint256) :
    (mapVotes (afterVote hashes now vote item))[key]? =
      if key = voter hashes vote then (if Timely now vote then some vote else none)
      else (mapVotes item)[key]? := by
  rw [afterVote, addOrUpdateVote_of_first first]
  by_cases same : key = voter hashes vote
  · subst same
    by_cases timely : Timely now vote
    · simp [timely]
    · simp [timely, first]
  · have different : ¬ voter hashes vote = key := fun equal => same equal.symm
    by_cases timely : Timely now vote
    · simp [timely, same, different, Std.ExtTreeMap.getElem?_insert]
    · simp [timely, same]

/-- What a vote does to the items. -/
theorem getElem?_items_updateVote (table : VoteTable ι β) (vote : β) (fromPeer : Bool)
    (key : Uint256) :
    (table.updateVote hashes env vote fromPeer).1.items[key]? =
      if key = subject vote then table.items[key]?.map (afterVote hashes env.node.time vote)
      else table.items[key]? := by
  unfold updateVote
  cases known : table.items[subject vote]? with
  | none =>
      have unchanged : table.items[key]? =
          if key = subject vote then table.items[key]?.map (afterVote hashes env.node.time vote)
          else table.items[key]? := by
        split
        · rename_i same
          rw [same, known]
          rfl
        · rfl
      simp only
      split
      · exact unchanged
      · exact unchanged
  | some item =>
      simp only
      cases taken : addOrUpdateVote hashes env.node.time item vote with
      | none =>
          simp only
          split
          · rename_i same
            rw [same, known, Option.map_some, afterVote, taken]
            rfl
          · rfl
      | some updated =>
          simp only [Std.ExtTreeMap.getElem?_insert, Std.LawfulEqCmp.compare_eq_iff_eq]
          by_cases same : key = subject vote
          · subst same
            simp [known, afterVote, taken]
          · have different : ¬ subject vote = key := fun equal => same equal.symm
            simp [same, different]

theorem seenVotes_updateVote (hashes : BudgetHashes) (env : BudgetEnv) (table : VoteTable ι β)
    (vote : β) (fromPeer : Bool) :
    (table.updateVote hashes env vote fromPeer).1.seenVotes = table.seenVotes := by
  unfold updateVote
  split
  · split <;> rfl
  · split <;> rfl

theorem items_checkOrphanVote (table : VoteTable ι β) (it : Uint256 × β) :
    (table.checkOrphanVote hashes env it).items =
      (table.updateVote hashes env it.2 false).1.items := by
  unfold checkOrphanVote
  simp only
  split <;> rfl

theorem seenVotes_checkOrphanVote (table : VoteTable ι β) (it : Uint256 × β) :
    (table.checkOrphanVote hashes env it).seenVotes = table.seenVotes := by
  rw [← seenVotes_updateVote hashes env table it.2 false]
  unfold checkOrphanVote
  simp only
  split <;> rfl

/-- The replay of orphans leaves an item without an orphan as it is, and counts the
orphan of an item that has one. -/
theorem foldl_checkOrphanVote (hashes : BudgetHashes) (env : BudgetEnv) (hash : Uint256)
    {entries : List (Uint256 × β)} (table : VoteTable ι β)
    (distinct : (entries.map Prod.fst).Nodup) (filed : ∀ it ∈ entries, subject it.2 = it.1) :
    let final := entries.foldl (fun table it => checkOrphanVote hashes env table it) table
    final.seenVotes = table.seenVotes ∧
      ((∀ it ∈ entries, it.1 ≠ hash) → final.items[hash]? = table.items[hash]?) ∧
      ∀ vote, (hash, vote) ∈ entries →
        final.items[hash]? = table.items[hash]?.map (afterVote hashes env.node.time vote) := by
  induction entries generalizing table with
  | nil =>
      refine ⟨rfl, fun _ => rfl, ?_⟩
      intro vote member
      cases member
  | cons it rest ih =>
      rw [List.map_cons, List.nodup_cons] at distinct
      rw [List.forall_mem_cons] at filed
      obtain ⟨seen, others, own⟩ := ih (table.checkOrphanVote hashes env it) distinct.2 filed.2
      have first : (table.checkOrphanVote hashes env it).items[hash]? =
          if hash = it.1 then table.items[hash]?.map (afterVote hashes env.node.time it.2)
          else table.items[hash]? := by
        rw [items_checkOrphanVote, getElem?_items_updateVote, filed.1]
      rw [List.foldl_cons]
      refine ⟨seen.trans (seenVotes_checkOrphanVote table it), ?_, ?_⟩
      · intro absent
        rw [List.forall_mem_cons] at absent
        rw [others absent.2, first, if_neg fun same => absent.1 same.symm]
      · intro vote member
        rcases List.mem_cons.mp member with here | later
        · subst here
          rw [others, first, if_pos rfl]
          intro other there same
          exact distinct.1 (List.mem_map.mpr ⟨other, there, same⟩)
        · have different : hash ≠ it.1 := by
            intro same
            exact distinct.1 (List.mem_map.mpr ⟨(hash, vote), later, same⟩)
          rw [own vote later, first, if_neg different]

/-- What `CheckOrphanVotes` does to an item. -/
theorem checkOrphanVotes_eq (hashes : BudgetHashes) (env : BudgetEnv) (hash : Uint256)
    (filed : table.Filed) :
    (table.checkOrphanVotes hashes env).seenVotes = table.seenVotes ∧
      (table.checkOrphanVotes hashes env).items[hash]? =
        table.items[hash]?.map fun item => table.orphanVotes[hash]?.elim item fun vote =>
          afterVote hashes env.node.time vote item := by
  have distinct : (table.orphanVotes.toList.map Prod.fst).Nodup := by
    rw [Std.ExtTreeMap.map_fst_toList_eq_keys]
    exact Std.ExtTreeMap.nodup_keys
  have owned : ∀ it ∈ table.orphanVotes.toList, subject it.2 = it.1 := by
    intro it member
    exact filed (Std.ExtTreeMap.mem_toList_iff_getElem?_eq_some.mp member)
  obtain ⟨seen, others, own⟩ :=
    foldl_checkOrphanVote hashes env hash table distinct owned
  refine ⟨seen, ?_⟩
  rw [checkOrphanVotes]
  cases waiting : table.orphanVotes[hash]? with
  | none =>
      simp only [Option.elim_none, Option.map_id']
      apply others
      rintro it member rfl
      rw [Std.ExtTreeMap.mem_toList_iff_getElem?_eq_some.mp member] at waiting
      cases waiting
  | some vote => exact own vote (Std.ExtTreeMap.mem_toList_iff_getElem?_eq_some.mpr waiting)

/-- Once the item is known, each first vote of a masternode goes into its votes, if it
is timely, and the other votes stay. -/
theorem receive_of_known (table : VoteTable ι β) {arrivals : List (BudgetEnv × β)} {item : ι}
    (known : table.items[hash]? = some item) (good : ∀ arrival ∈ arrivals, Arrives hash arrival)
    (new : ∀ arrival ∈ arrivals, table.seenVotes.contains (getHash hashes arrival.2) = false)
    (distinct : (arrivals.map fun arrival => getHash hashes arrival.2).Nodup)
    (voters : (arrivals.map fun arrival => voter hashes arrival.2).Nodup)
    (first : ∀ arrival ∈ arrivals, (mapVotes item)[voter hashes arrival.2]? = none) :
    ∃ final, (receive hashes table arrivals).items[hash]? = some final ∧
      (∀ key, key ∉ arrivals.map (fun arrival => voter hashes arrival.2) →
        (mapVotes final)[key]? = (mapVotes item)[key]?) ∧
      ∀ arrival ∈ arrivals, (mapVotes final)[voter hashes arrival.2]? =
        if Timely arrival.1.node.time arrival.2 then some arrival.2 else none := by
  induction arrivals generalizing table item with
  | nil =>
      refine ⟨item, known, fun _ _ => rfl, ?_⟩
      intro arrival member
      cases member
  | cons arrival rest ih =>
      rw [List.forall_mem_cons] at good new first
      rw [List.map_cons, List.nodup_cons] at distinct voters
      have next : (table.processVote hashes arrival.1 arrival.2).items[hash]? =
          some (afterVote hashes arrival.1.node.time arrival.2 item) := by
        rw [processVote_of_arrives good.1 new.1, getElem?_items_updateVote,
          if_pos good.1.on.symm]
        exact congrArg (Option.map _) known
      have later : ∀ other ∈ rest, (table.processVote hashes arrival.1 arrival.2).seenVotes.contains
          (getHash hashes other.2) = false := by
        intro other member
        rw [processVote_of_arrives good.1 new.1, seenVotes_updateVote]
        apply contains_seenVotes_mark
        · intro same
          exact distinct.1 (List.mem_map.mpr ⟨other, member, same⟩)
        · exact new.2 other member
      have votes := getElem?_mapVotes_afterVote arrival.1.node.time first.1
      have firsts : ∀ other ∈ rest, (mapVotes (afterVote hashes arrival.1.node.time arrival.2
          item))[voter hashes other.2]? = none := by
        intro other member
        have different : voter hashes other.2 ≠ voter hashes arrival.2 := by
          intro same
          exact voters.1 (List.mem_map.mpr ⟨other, member, same⟩)
        rw [votes, if_neg different]
        exact first.2 other member
      obtain ⟨final, found, others, own⟩ := ih _ next good.2 later distinct.2 voters.2 firsts
      refine ⟨final, found, ?_, ?_⟩
      · intro key elsewhere
        rw [List.map_cons, List.mem_cons, not_or] at elsewhere
        rw [others key elsewhere.2, votes, if_neg elsewhere.1]
      · intro other member
        rcases List.mem_cons.mp member with rfl | there
        · rw [others _ voters.1, votes, if_pos rfl]
        · exact own other there

end

/-- The `mprop` and `fbs` handlers, as far as they concern one kind. -/
def accept (hashes : BudgetHashes) (env : BudgetEnv) (table : VoteTable ι β)
    (tests : ItemTests ι) (hash : Uint256) (item : ι) : VoteTable ι β :=
  let (table, accepted) := table.processItem env tests hash item
  if accepted then table.checkOrphanVotes hashes env else table

/-- An item that a node has not heard of arrives and is accepted, after some votes on
it and before others. The votes are signed by distinct known masternodes. -/
structure Heard (hashes : BudgetHashes) (start : VoteTable ι β) (hash : Uint256)
    (before : List (BudgetEnv × β)) (env : BudgetEnv) (tests : ItemTests ι) (item : ι)
    (after : List (BudgetEnv × β)) : Prop where
  arrive : ∀ arrival ∈ before ++ after, Arrives hash arrival
  /-- A vote on an unknown item waits only at a synced node. -/
  synced : ∀ arrival ∈ before, arrival.1.node.isSynced = true
  voters : ((before ++ after).map fun arrival => voter hashes arrival.2).Nodup
  distinct : ((before ++ after).map fun arrival => getHash hashes arrival.2).Nodup
  newVotes : ∀ arrival ∈ before ++ after,
    start.seenVotes.contains (getHash hashes arrival.2) = false
  unknown : start.items[hash]? = none
  newItem : start.seenItems.contains hash = false
  noOrphan : start.orphanVotes[hash]? = none
  filed : start.Filed
  handled : env.handles = true
  collateral : tests.isBudgetCollateralValid item = true
  valid : tests.isValid item = true
  noVotes : mapVotes item = ∅

/-- The item has the vote. -/
def HasVote (hashes : BudgetHashes) (table : VoteTable ι β) (hash : Uint256) (vote : β) : Prop :=
  ∃ item, table.items[hash]? = some item ∧ (mapVotes item)[voter hashes vote]? = some vote

/-- At most one vote comes before its item, and all votes are timely when they are
looked at. -/
def Punctual (before : List (BudgetEnv × β)) (env : BudgetEnv) (after : List (BudgetEnv × β)) :
    Prop :=
  before.length ≤ 1 ∧ (∀ arrival ∈ before, Timely env.node.time arrival.2) ∧
    ∀ arrival ∈ after, Timely arrival.1.node.time arrival.2

section

variable {hashes : BudgetHashes} {env : BudgetEnv} {start : VoteTable ι β} {hash : Uint256}
variable {before after : List (BudgetEnv × β)} {tests : ItemTests ι} {item : ι}

/-- The item when it has been accepted: of the votes before it, it has the last one. -/
theorem accept_of_heard (heard : Heard hashes start hash before env tests item after) :
    let accepted := (receive hashes start before).accept hashes env tests hash item
    (∀ arrival ∈ after, accepted.seenVotes.contains (getHash hashes arrival.2) = false) ∧
      accepted.items[hash]? = some (before.getLast?.elim item fun arrival =>
        afterVote hashes env.node.time arrival.2 item) := by
  have arrive := List.forall_mem_append.mp heard.arrive
  have newVotes := List.forall_mem_append.mp heard.newVotes
  have distinct := heard.distinct
  rw [List.map_append, List.nodup_append] at distinct
  obtain ⟨items, seenItems, orphans, seen⟩ :=
    receive_of_unknown start heard.unknown arrive.1 heard.synced newVotes.1 distinct.1
  have entered : (receive hashes start before).accept hashes env tests hash item =
      checkOrphanVotes hashes env { receive hashes start before with
        seenItems := (receive hashes start before).seenItems.insert hash item
        items := (receive hashes start before).items.insertIfNew hash item } := by
    simp only [accept, processItem, heard.handled, seenItems, heard.newItem, heard.collateral,
      heard.valid, Bool.not_true, Bool.false_eq_true, ↓reduceIte]
  have filed : Filed { receive hashes start before with
      seenItems := (receive hashes start before).seenItems.insert hash item
      items := (receive hashes start before).items.insertIfNew hash item } := by
    intro key vote waiting
    simp only [orphans] at waiting
    split at waiting
    · rename_i same
      subst same
      rw [heard.noOrphan, Option.or_none] at waiting
      obtain ⟨arrival, last, rfl⟩ := Option.map_eq_some_iff.mp waiting
      exact (arrive.1 arrival (List.mem_of_getLast? last)).on
    · exact heard.filed waiting
  obtain ⟨sameSeen, found⟩ := checkOrphanVotes_eq hashes env hash filed
  simp only [entered]
  refine ⟨?_, ?_⟩
  · intro arrival member
    rw [sameSeen]
    apply seen
    · intro there
      exact distinct.2.2 _ there _ (List.mem_map_of_mem member) rfl
    · exact newVotes.2 arrival member
  · have absent : hash ∉ (receive hashes start before).items := by
      rw [items, Std.ExtTreeMap.mem_iff_isSome_getElem?, heard.unknown]
      exact Bool.false_ne_true
    have added : ((receive hashes start before).items.insertIfNew hash item)[hash]? =
        some item := by
      rw [Std.ExtTreeMap.getElem?_insertIfNew, if_pos ⟨Std.ReflCmp.compare_self, absent⟩]
    rw [found]
    simp only [added, Option.map_some, orphans, ↓reduceIte, heard.noOrphan, Option.or_none]
    cases before.getLast? with
    | none => rfl
    | some arrival => rfl

/-- Of the votes before the item, all are counted exactly when there is at most one,
and it is timely. -/
theorem orphans_counted_iff (noVotes : mapVotes item = ∅)
    (voters : (before.map fun arrival => voter hashes arrival.2).Nodup) :
    (∀ arrival ∈ before, (mapVotes (before.getLast?.elim item fun last =>
        afterVote hashes env.node.time last.2 item))[voter hashes arrival.2]? = some arrival.2) ↔
      before.length ≤ 1 ∧ ∀ arrival ∈ before, Timely env.node.time arrival.2 := by
  have first : ∀ vote : β, (mapVotes item)[voter hashes vote]? = none := by
    intro vote
    rw [noVotes, Std.ExtTreeMap.getElem?_empty]
  match before, voters with
  | [], _ => simp
  | [arrival], _ => simp [getElem?_mapVotes_afterVote _ (first _)]
  | lost :: other :: rest, voters =>
      rw [List.map_cons, List.nodup_cons] at voters
      constructor
      · intro counted
        have here := counted lost List.mem_cons_self
        rw [List.getLast?_cons_cons] at here
        obtain ⟨last, found⟩ := Option.isSome_iff_exists.mp
          (List.getLast?_isSome.mpr (List.cons_ne_nil other rest))
        have different : voter hashes lost.2 ≠ voter hashes last.2 := by
          intro same
          exact voters.1 (List.mem_map.mpr ⟨last, List.mem_of_getLast? found, same.symm⟩)
        rw [found, Option.elim_some, getElem?_mapVotes_afterVote _ (first _), if_neg different,
          first] at here
        cases here
      · intro short
        exact absurd short.1 (by simp)

/-- **An item keeps one orphan.** Every vote ends up with the item exactly when at most
one of them came before it, and all are timely. -/
theorem all_counted_iff (heard : Heard hashes start hash before env tests item after) :
    (∀ arrival ∈ before ++ after, HasVote hashes (receive hashes
        ((receive hashes start before).accept hashes env tests hash item) after) hash arrival.2) ↔
      Punctual before env after := by
  have voters := heard.voters
  rw [List.map_append, List.nodup_append] at voters
  have distinct := heard.distinct
  rw [List.map_append, List.nodup_append] at distinct
  obtain ⟨newVotes, found⟩ := accept_of_heard heard
  have noVotes : ∀ vote : β, (mapVotes item)[voter hashes vote]? = none := by
    intro vote
    rw [heard.noVotes, Std.ExtTreeMap.getElem?_empty]
  have first : ∀ arrival ∈ after, (mapVotes (before.getLast?.elim item fun last =>
      afterVote hashes env.node.time last.2 item))[voter hashes arrival.2]? = none := by
    intro arrival member
    cases last : before.getLast? with
    | none => exact noVotes _
    | some orphan =>
        have different : voter hashes arrival.2 ≠ voter hashes orphan.2 := by
          intro same
          exact voters.2.2 _ (List.mem_map_of_mem (List.mem_of_getLast? last)) _
            (List.mem_map_of_mem member) same.symm
        rw [Option.elim_some, getElem?_mapVotes_afterVote _ (noVotes _), if_neg different]
        exact noVotes _
  obtain ⟨final, here, others, own⟩ := receive_of_known _ found
    (List.forall_mem_append.mp heard.arrive).2 newVotes distinct.2.1 voters.2.1 first
  have has : ∀ vote : β, HasVote hashes (receive hashes
      ((receive hashes start before).accept hashes env tests hash item) after) hash vote ↔
        (mapVotes final)[voter hashes vote]? = some vote := by
    intro vote
    simp only [HasVote, here, Option.some.injEq, exists_eq_left']
  simp only [has, List.forall_mem_append, Punctual]
  rw [← and_assoc, ← orphans_counted_iff heard.noVotes voters.1]
  refine and_congr ?_ ?_
  · apply forall₂_congr
    intro arrival member
    rw [others]
    intro there
    exact voters.2.2 _ (List.mem_map_of_mem member) _ there rfl
  · apply forall₂_congr
    intro arrival member
    rw [own arrival member]
    by_cases timely : Timely arrival.1.node.time arrival.2
    · simp [timely]
    · simp [timely]

end

end VoteTable

namespace BudgetTables

variable (hashes : BudgetHashes)

theorem foldl_mvote (start : BudgetTables) (arrivals : List (BudgetEnv × CBudgetVote)) :
    ((arrivals.map fun arrival => (arrival.1, BudgetMessage.mvote arrival.2)).foldl (step hashes)
      start).proposals = VoteTable.receive hashes start.proposals arrivals := by
  induction arrivals generalizing start with
  | nil => rfl
  | cons arrival rest ih => exact ih _

theorem foldl_fbvote (start : BudgetTables) (arrivals : List (BudgetEnv × CFinalizedBudgetVote)) :
    ((arrivals.map fun arrival => (arrival.1, BudgetMessage.fbvote arrival.2)).foldl (step hashes)
      start).finalizedBudgets = VoteTable.receive hashes start.finalizedBudgets arrivals := by
  induction arrivals generalizing start with
  | nil => rfl
  | cons arrival rest ih => exact ih _

theorem proposals_mprop (env : BudgetEnv) (tables : BudgetTables) (proposal : CBudgetProposal) :
    (tables.processMprop hashes env proposal).proposals = tables.proposals.accept hashes env
      env.proposalTests (hashes.proposal proposal) proposal := by
  unfold processMprop VoteTable.accept
  simp only
  split <;> rfl

theorem finalizedBudgets_fbs (env : BudgetEnv) (tables : BudgetTables)
    (finalized : CFinalizedBudget) :
    (tables.processFbs hashes env finalized).finalizedBudgets =
      tables.finalizedBudgets.accept hashes env env.finalizedBudgetTests
        (hashes.finalizedBudget finalized) finalized := by
  unfold processFbs VoteTable.accept
  simp only
  split <;> rfl

/-- A proposal, with the votes on it that come before and after. -/
def proposalRun (before : List (BudgetEnv × CBudgetVote)) (env : BudgetEnv)
    (proposal : CBudgetProposal) (after : List (BudgetEnv × CBudgetVote)) :
    List (BudgetEnv × BudgetMessage) :=
  before.map (fun arrival => (arrival.1, .mvote arrival.2)) ++ (env, .mprop proposal) ::
    after.map fun arrival => (arrival.1, .mvote arrival.2)

/-- A finalized budget, with the votes on it that come before and after. -/
def finalizedBudgetRun (before : List (BudgetEnv × CFinalizedBudgetVote)) (env : BudgetEnv)
    (finalized : CFinalizedBudget) (after : List (BudgetEnv × CFinalizedBudgetVote)) :
    List (BudgetEnv × BudgetMessage) :=
  before.map (fun arrival => (arrival.1, .fbvote arrival.2)) ++ (env, .fbs finalized) ::
    after.map fun arrival => (arrival.1, .fbvote arrival.2)

/-- **Which orphan votes survive.** Whatever the order of a proposal and its votes, and
of a finalized budget and its votes, every vote is counted in the end exactly when at
most one of them came first, and none is dated too far ahead. -/
theorem orphan_votes_counted_iff (start : BudgetTables) :
    (∀ (before : List (BudgetEnv × CBudgetVote)) (env : BudgetEnv) (proposal : CBudgetProposal)
      (after : List (BudgetEnv × CBudgetVote)),
      VoteTable.Heard hashes start.proposals (hashes.proposal proposal) before env
        env.proposalTests proposal after →
      ((∀ arrival ∈ before ++ after, VoteTable.HasVote hashes
          ((proposalRun before env proposal after).foldl (step hashes) start).proposals
          (hashes.proposal proposal) arrival.2) ↔ VoteTable.Punctual before env after)) ∧
    ∀ (before : List (BudgetEnv × CFinalizedBudgetVote)) (env : BudgetEnv)
      (finalized : CFinalizedBudget) (after : List (BudgetEnv × CFinalizedBudgetVote)),
      VoteTable.Heard hashes start.finalizedBudgets (hashes.finalizedBudget finalized) before env
        env.finalizedBudgetTests finalized after →
      ((∀ arrival ∈ before ++ after, VoteTable.HasVote hashes
          ((finalizedBudgetRun before env finalized after).foldl (step hashes)
            start).finalizedBudgets (hashes.finalizedBudget finalized) arrival.2) ↔
        VoteTable.Punctual before env after) := by
  refine ⟨?_, ?_⟩
  · intro before env proposal after heard
    rw [proposalRun, List.foldl_append, List.foldl_cons, foldl_mvote, step, processMessage,
      proposals_mprop, foldl_mvote]
    exact VoteTable.all_counted_iff heard
  · intro before env finalized after heard
    rw [finalizedBudgetRun, List.foldl_append, List.foldl_cons, foldl_fbvote, step,
      processMessage, finalizedBudgets_fbs, foldl_fbvote]
    exact VoteTable.all_counted_iff heard

/-- Sums in the place of hashes. -/
def sumHashes : BudgetHashes where
  outpoint out := out.hash + BitVec.ofNat 256 out.n.toNat
  budgetVote vin proposal nVote nTime :=
    vin.prevout.hash + proposal + BitVec.ofInt 256 nVote + BitVec.ofInt 256 nTime
  finalizedBudgetVote vin finalized nTime :=
    vin.prevout.hash + finalized + BitVec.ofInt 256 nTime
  proposal _ := 9
  finalizedBudget _ := 8

/-- A synced node that knows twenty masternodes. -/
def votingEnv : BudgetEnv where
  node := NodeContext.mainNode 500
  mnodeman := CBudgetManager.twentyNodes
  hashText hash := toString hash.toNat
  proposalTests := ⟨fun _ => true, fun _ => true⟩
  finalizedBudgetTests := ⟨fun _ => true, fun _ => true⟩

def plainProposal : CBudgetProposal where
  strProposalName := "website"
  strURL := "json"
  nBlockStart := 21600
  nBlockEnd := 43200
  nAmount := 50 * COIN
  address := [0x51]
  nFeeTXHash := 3

/-- The vote of a masternode with this signature on the proposal. -/
def voteOf (index : Nat) (vchSig : List UInt8) : CBudgetVote where
  vin := { prevout := ⟨BitVec.ofNat 256 (1000 + index), 0⟩ }
  nProposalHash := 9
  nVote := 1
  nTime := 1599990000
  vchSig

/-- Two masternodes vote on the proposal. -/
def twoVotes : List (BudgetEnv × CBudgetVote) :=
  [(votingEnv, voteOf 0 [0, 1]), (votingEnv, voteOf 1 [1, 1])]

theorem heard_twoVotes {before after : List (BudgetEnv × CBudgetVote)}
    (split : before ++ after = twoVotes) :
    VoteTable.Heard sumHashes ({} : BudgetTables).proposals (sumHashes.proposal plainProposal)
      before votingEnv votingEnv.proposalTests plainProposal after where
  arrive := by
    rw [split]
    intro arrival member
    rcases List.mem_pair.mp member with rfl | rfl
    · exact ⟨by decide, by decide, by decide⟩
    · exact ⟨by decide, by decide, by decide⟩
  synced := by
    intro arrival member
    have inside : arrival ∈ twoVotes := split ▸ List.mem_append_left after member
    rcases List.mem_pair.mp inside with rfl | rfl
    · decide
    · decide
  voters := by
    rw [split]
    decide
  distinct := by
    rw [split]
    decide
  newVotes arrival _ := Std.ExtTreeMap.contains_empty
  unknown := Std.ExtTreeMap.getElem?_empty
  newItem := Std.ExtTreeMap.contains_empty
  noOrphan := Std.ExtTreeMap.getElem?_empty
  filed waiting := by
    rw [Std.ExtTreeMap.getElem?_empty] at waiting
    cases waiting
  handled := by decide
  collateral := rfl
  valid := rfl
  noVotes := rfl

theorem votes_counted_around_proposal :
    ∀ arrival ∈ [(votingEnv, voteOf 0 [0, 1])] ++ [(votingEnv, voteOf 1 [1, 1])],
      VoteTable.HasVote sumHashes
        ((proposalRun [(votingEnv, voteOf 0 [0, 1])] votingEnv plainProposal
          [(votingEnv, voteOf 1 [1, 1])]).foldl (step sumHashes) {}).proposals 9 arrival.2 := by
  have punctual : VoteTable.Punctual [(votingEnv, voteOf 0 [0, 1])] votingEnv
      [(votingEnv, voteOf 1 [1, 1])] := by
    refine ⟨by decide, ?_, ?_⟩
    · decide
    · decide
  exact ((orphan_votes_counted_iff sumHashes {}).1 _ votingEnv plainProposal _
    (heard_twoVotes rfl)).mpr punctual

/-- Of two votes before their proposal, the first is lost. -/
theorem orphan_vote_lost :
    ¬ ∀ (hashes : BudgetHashes) (start : BudgetTables) (before : List (BudgetEnv × CBudgetVote))
      (env : BudgetEnv) (proposal : CBudgetProposal) (after : List (BudgetEnv × CBudgetVote)),
      VoteTable.Heard hashes start.proposals (hashes.proposal proposal) before env
        env.proposalTests proposal after →
      ∀ arrival ∈ before ++ after, VoteTable.HasVote hashes
        ((proposalRun before env proposal after).foldl (step hashes) start).proposals
        (hashes.proposal proposal) arrival.2 := by
  intro kept
  obtain ⟨item, found, vote⟩ := kept sumHashes {} twoVotes votingEnv plainProposal []
    (heard_twoVotes rfl) (votingEnv, voteOf 0 [0, 1]) (by simp [twoVotes])
  have missing : (((proposalRun twoVotes votingEnv plainProposal []).foldl (step sumHashes)
      {}).proposals.items[(9 : Uint256)]?.bind fun item =>
        item.mapVotes[VoteTable.voter sumHashes (voteOf 0 [0, 1])]?) = none := by
    decide
  rw [show (9 : Uint256) = sumHashes.proposal plainProposal from rfl, found] at missing
  exact absurd (missing.symm.trans vote) (by simp)

end BudgetTables

end GiantCore
