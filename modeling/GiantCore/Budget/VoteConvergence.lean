import GiantCore.Budget.VoteGossip
import Mathlib.Data.List.MinMax

/-! # Votes in different orders

A masternode may vote on an item more than once. Its vote is replaced by one that is at least an
hour newer (`BUDGET_VOTE_UPDATE_MIN`), so that the order in which the votes arrive can decide which
one stays. A difference of `2 ^ 63` seconds or more is taken for a negative one.
-/

namespace GiantCore

open Ballot Votable

namespace VoteTable

variable {ι β : Type} [Ballot β] [Votable ι β]

/-! ## The votes of one masternode -/

/-- The vote that stays when another one of the same masternode arrives. -/
def keepVote (stored : Option β) (vote : β) : Option β :=
  match stored with
  | none => some vote
  | some existing => if isTooSoon vote existing then some existing else some vote

/-- A vote with no later vote an hour or more after it stays. -/
theorem foldl_keepVote_of_tooSoon {votes : List β} {existing : β}
    (all : ∀ vote ∈ votes, isTooSoon vote existing = true) :
    votes.foldl keepVote (some existing) = some existing := by
  induction votes with
  | nil => rfl
  | cons vote rest ih =>
      rw [List.forall_mem_cons] at all
      rw [List.foldl_cons, keepVote, if_pos all.1, ih all.2]

/-- What stays was there or has arrived. -/
theorem mem_of_foldl_keepVote {votes : List β} {existing kept : β}
    (stays : votes.foldl keepVote (some existing) = some kept) : kept ∈ existing :: votes := by
  induction votes generalizing existing with
  | nil =>
      cases stays
      exact List.mem_cons_self
  | cons vote rest ih =>
      rw [List.foldl_cons, keepVote] at stays
      split at stays
      · rcases List.mem_cons.mp (ih stays) with rfl | later
        · exact List.mem_cons_self
        · exact List.mem_cons_of_mem _ (List.mem_cons_of_mem _ later)
      · exact List.mem_cons_of_mem _ (ih stays)

/-- A vote that replaces all others is there in the end, whatever comes before and after it. -/
theorem foldl_keepVote_latest {votes : List β} {latest : β} (member : latest ∈ votes)
    {stored : Option β}
    (replaces : ∀ vote ∈ votes, vote ≠ latest → isTooSoon latest vote = false)
    (stays : ∀ vote ∈ votes, isTooSoon vote latest = true)
    (start : ∀ existing, stored = some existing → existing ≠ latest →
      isTooSoon latest existing = false) :
    votes.foldl keepVote stored = some latest := by
  induction votes generalizing stored with
  | nil => cases member
  | cons vote rest ih =>
      rw [List.forall_mem_cons] at replaces stays
      rw [List.foldl_cons]
      by_cases here : vote = latest
      · subst here
        have taken : keepVote stored vote = some vote := by
          unfold keepVote
          split
          · rfl
          · rename_i existing
            split
            · rename_i tooSoon
              by_contra different
              have replaced := start existing rfl fun same => different (congrArg some same)
              rw [replaced] at tooSoon
              cases tooSoon
            · rfl
        rw [taken, foldl_keepVote_of_tooSoon stays.2]
      · refine ih ((List.mem_cons.mp member).resolve_left fun same => here same.symm) replaces.2
          stays.2 ?_
        intro existing kept
        unfold keepVote at kept
        split at kept
        · rw [← Option.some.inj kept]
          exact replaces.1
        · rename_i before
          split at kept
          · rw [← Option.some.inj kept]
            exact start before rfl
          · rw [← Option.some.inj kept]
            exact replaces.1

/-! ## The map of votes -/

section

variable {hashes : BudgetHashes} {env : BudgetEnv} {table : VoteTable ι β} {hash : Uint256}

/-- A timely vote changes the entry of its masternode. -/
theorem getElem?_mapVotes_of_timely {now : Int} {item : ι} {vote : β} (timely : Timely now vote)
    (key : Uint256) :
    (mapVotes (afterVote hashes now vote item))[key]? =
      if voter hashes vote = key then keepVote (mapVotes item)[key]? vote
      else (mapVotes item)[key]? := by
  have onTime : (decide (nTime vote > now + 60 * 60)) = false := by
    rw [decide_eq_false_iff_not]
    exact not_lt.mpr timely
  have takes : takesVote hashes now item vote =
      !((mapVotes item)[voter hashes vote]?.any (isTooSoon vote)) := by
    rw [takesVote, onTime, Bool.not_false, Bool.and_true, voter]
  rw [afterVote, addOrUpdateVote, takes]
  by_cases same : voter hashes vote = key
  · subst same
    rw [if_pos rfl]
    cases stored : (mapVotes item)[voter hashes vote]? with
    | none => simp [keepVote, voter]
    | some existing =>
        cases tooSoon : isTooSoon vote existing with
        | true => simp [keepVote, tooSoon, stored]
        | false => simp [keepVote, tooSoon, voter]
  · rw [if_neg same]
    cases (mapVotes item)[voter hashes vote]?.any (isTooSoon vote) with
    | true => simp
    | false =>
        simp only [Bool.not_false, ↓reduceIte, Option.getD_some, mapVotes_withVotes]
        rw [Std.ExtTreeMap.getElem?_insert, if_neg]
        rw [Std.LawfulEqCmp.compare_eq_iff_eq]
        exact same

/-- **What is left of the votes that arrive**: for each masternode, what the loop over its votes
keeps. -/
theorem getElem?_mapVotes_receive (table : VoteTable ι β) {arrivals : List (BudgetEnv × β)}
    {item : ι} (known : table.items[hash]? = some item)
    (good : ∀ arrival ∈ arrivals,
      Arrives hash arrival ∧ Timely arrival.1.node.time arrival.2)
    (new : ∀ arrival ∈ arrivals, table.seenVotes.contains (getHash hashes arrival.2) = false)
    (distinct : (arrivals.map fun arrival => getHash hashes arrival.2).Nodup) :
    ∃ final, (receive hashes table arrivals).items[hash]? = some final ∧ ∀ key : Uint256,
      (mapVotes final)[key]? = ((arrivals.map Prod.snd).filter fun vote =>
        voter hashes vote = key).foldl keepVote (mapVotes item)[key]? := by
  induction arrivals generalizing table item with
  | nil => exact ⟨item, known, fun _ => rfl⟩
  | cons arrival rest ih =>
      rw [List.forall_mem_cons] at good new
      rw [List.map_cons, List.nodup_cons] at distinct
      have next : (table.processVote hashes arrival.1 arrival.2).items[hash]? =
          some (afterVote hashes arrival.1.node.time arrival.2 item) := by
        rw [processVote_of_arrives good.1.1 new.1, getElem?_items_updateVote,
          if_pos good.1.1.on.symm]
        exact congrArg (Option.map _) known
      have later : ∀ other ∈ rest, (table.processVote hashes arrival.1 arrival.2).seenVotes.contains
          (getHash hashes other.2) = false := by
        intro other member
        rw [processVote_of_arrives good.1.1 new.1, seenVotes_updateVote]
        apply contains_seenVotes_mark
        · intro same
          exact distinct.1 (List.mem_map.mpr ⟨other, member, same⟩)
        · exact new.2 other member
      obtain ⟨final, found, votes⟩ := ih _ next good.2 later distinct.2
      refine ⟨final, found, fun key => ?_⟩
      rw [votes, getElem?_mapVotes_of_timely good.1.2, List.map_cons]
      by_cases same : voter hashes arrival.2 = key
      · rw [if_pos same, List.filter_cons_of_pos (by simpa using same), List.foldl_cons]
      · rw [if_neg same, List.filter_cons_of_neg (by simpa using same)]

/-- A set of votes on an item that a node knows, of masternodes that have no vote there yet: each is
correctly signed and not too far in the future, and the votes of one masternode have different
times, which are 64-bit numbers. -/
structure Poll (hashes : BudgetHashes) (table : VoteTable ι β) (hash : Uint256) (item : ι)
    (env : BudgetEnv) (votes : List β) : Prop where
  known : table.items[hash]? = some item
  good : ∀ vote ∈ votes, Arrives hash (env, vote) ∧ Timely env.node.time vote
  new : ∀ vote ∈ votes, table.seenVotes.contains (getHash hashes vote) = false
  distinct : (votes.map (getHash hashes)).Nodup
  first : ∀ vote ∈ votes, (mapVotes item)[voter hashes vote]? = none
  times : ∀ vote ∈ votes, ∀ other ∈ votes, voter hashes vote = voter hashes other →
    nTime vote = nTime other → vote = other
  range : ∀ vote ∈ votes, -2 ^ 63 ≤ nTime vote ∧ nTime vote < 2 ^ 63

/-- The votes are delivered in some order, each in surroundings of its own. -/
structure Delivered (hash : Uint256) (votes : List β) (arrivals : List (BudgetEnv × β)) : Prop where
  order : (arrivals.map Prod.snd).Perm votes
  good : ∀ arrival ∈ arrivals, Arrives hash arrival ∧ Timely arrival.1.node.time arrival.2

/-- No vote of the same masternode is newer. -/
def IsLatest (hashes : BudgetHashes) (votes : List β) (latest : β) : Prop :=
  latest ∈ votes ∧ ∀ vote ∈ votes, voter hashes vote = voter hashes latest →
    nTime vote ≤ nTime latest

/-- The votes of the item after the deliveries. -/
def votesAfter (hashes : BudgetHashes) (table : VoteTable ι β) (hash : Uint256)
    (arrivals : List (BudgetEnv × β)) : Option (Std.ExtTreeMap Uint256 β) :=
  (receive hashes table arrivals).items[hash]?.map mapVotes

/-- **The votes converge**: they end up alike in all orders of delivery, and the latest vote of each
masternode is kept. -/
structure Converges (hashes : BudgetHashes) (table : VoteTable ι β) (hash : Uint256)
    (votes : List β) : Prop where
  alike : ∀ first second, Delivered hash votes first → Delivered hash votes second →
    votesAfter hashes table hash first = votesAfter hashes table hash second
  latest : ∀ arrivals, Delivered hash votes arrivals → ∀ vote, IsLatest hashes votes vote →
    (votesAfter hashes table hash arrivals).bind (·[voter hashes vote]?) = some vote

/-- **The latest vote of a masternode is at least an hour newer than its other votes**, by less than
`2 ^ 63` seconds. -/
def Spaced (hashes : BudgetHashes) (votes : List β) : Prop :=
  ∀ latest, IsLatest hashes votes latest → ∀ vote ∈ votes,
    voter hashes vote = voter hashes latest → vote ≠ latest →
      nTime vote + budgetVoteUpdateMin ≤ nTime latest ∧ nTime latest - nTime vote < 2 ^ 63

omit [Votable ι β] in
theorem isTooSoon_of_le {vote existing : β} (le : nTime vote ≤ nTime existing) :
    isTooSoon vote existing = true := by
  unfold isTooSoon budgetVoteUpdateMin
  rw [Bool.or_eq_true, decide_eq_true_iff, decide_eq_true_iff]
  rcases le.lt_or_eq with older | same
  · exact .inl older
  · rw [same, sub_self]
    exact .inr (by decide)

omit [Votable ι β] in
/-- A vote replaces an older one if their difference is an hour or more, as a 64-bit number. -/
theorem isTooSoon_eq_false_iff {vote existing : β} (newer : nTime existing ≤ nTime vote)
    (near : nTime vote - nTime existing < 2 ^ 64) :
    isTooSoon vote existing = false ↔
      nTime existing + budgetVoteUpdateMin ≤ nTime vote ∧
        nTime vote - nTime existing < 2 ^ 63 := by
  unfold isTooSoon budgetVoteUpdateMin
  rw [Bool.or_eq_false_iff, decide_eq_false_iff_not, decide_eq_false_iff_not,
    and_iff_right (not_lt.mpr newer)]
  rcases lt_or_ge (nTime vote - nTime existing) (2 ^ 63) with small | large
  · rw [Int.bmod_eq_of_le (by omega) (by omega)]
    omega
  · have wrapped : (nTime vote - nTime existing).bmod (2 ^ 64) =
        nTime vote - nTime existing - 2 ^ 64 := by
      rw [← Int.sub_bmod_right]
      exact Int.bmod_eq_of_le (by omega) (by omega)
    rw [wrapped]
    omega

variable {item : ι} {votes : List β}

theorem Poll.votesAfter (poll : Poll hashes table hash item env votes)
    {arrivals : List (BudgetEnv × β)} (delivered : Delivered hash votes arrivals) :
    ∃ final, votesAfter hashes table hash arrivals = some final ∧ ∀ key : Uint256,
      final[key]? = ((arrivals.map Prod.snd).filter fun vote =>
        voter hashes vote = key).foldl keepVote (mapVotes item)[key]? := by
  have member : ∀ arrival ∈ arrivals, arrival.2 ∈ votes := fun arrival inside =>
    delivered.order.subset (List.mem_map.mpr ⟨arrival, inside, rfl⟩)
  have distinct : (arrivals.map fun arrival => getHash hashes arrival.2).Nodup := by
    have nodup := (delivered.order.map (getHash hashes)).nodup_iff.mpr poll.distinct
    rwa [List.map_map] at nodup
  obtain ⟨final, found, entries⟩ := getElem?_mapVotes_receive table poll.known delivered.good
    (fun arrival inside => poll.new _ (member arrival inside)) distinct
  refine ⟨mapVotes final, ?_, entries⟩
  rw [VoteTable.votesAfter, found, Option.map_some]

/-- Spaced votes leave the latest one of each masternode. -/
theorem Spaced.foldl_keepVote (spaced : Spaced hashes votes) {order : List β}
    (perm : order.Perm votes) {latest : β} (isLatest : IsLatest hashes votes latest) :
    (order.filter fun vote => voter hashes vote = voter hashes latest).foldl keepVote none =
      some latest := by
  have facts : ∀ vote ∈ order.filter (fun vote => voter hashes vote = voter hashes latest),
      vote ∈ votes ∧ voter hashes vote = voter hashes latest := by
    intro vote member
    obtain ⟨inside, same⟩ := List.mem_filter.mp member
    exact ⟨perm.subset inside, of_decide_eq_true same⟩
  refine foldl_keepVote_latest ?_ ?_ ?_ (fun existing none => (nomatch none))
  · exact List.mem_filter.mpr ⟨perm.mem_iff.mpr isLatest.1, decide_eq_true rfl⟩
  · intro vote member different
    obtain ⟨inside, same⟩ := facts vote member
    have apart := spaced latest isLatest vote inside same different
    have near : nTime latest - nTime vote < 2 ^ 64 := apart.2.trans (by decide)
    exact (isTooSoon_eq_false_iff (isLatest.2 vote inside same) near).mpr apart
  · intro vote member
    obtain ⟨inside, same⟩ := facts vote member
    exact isTooSoon_of_le (isLatest.2 vote inside same)

omit [Votable ι β] in
/-- A masternode that votes has a latest vote. -/
theorem exists_isLatest {vote : β} (member : vote ∈ votes) :
    ∃ latest, IsLatest hashes votes latest ∧ voter hashes latest = voter hashes vote := by
  have own : vote ∈ votes.filter fun other => voter hashes other = voter hashes vote :=
    List.mem_filter.mpr ⟨member, decide_eq_true rfl⟩
  cases found : (votes.filter fun other => voter hashes other = voter hashes vote).argmax nTime with
  | none =>
      rw [List.argmax_eq_none] at found
      rw [found] at own
      cases own
  | some latest =>
      obtain ⟨inside, same⟩ := List.mem_filter.mp (List.argmax_mem found)
      have equal := of_decide_eq_true same
      refine ⟨latest, ⟨inside, fun other there voters => ?_⟩, equal⟩
      exact List.le_of_mem_argmax
        (List.mem_filter.mpr ⟨there, decide_eq_true (voters.trans equal)⟩) found

theorem Poll.converges_of_spaced (poll : Poll hashes table hash item env votes)
    (spaced : Spaced hashes votes) : Converges hashes table hash votes := by
  -- every entry of the final map is known
  have entry : ∀ arrivals, Delivered hash votes arrivals → ∀ latest, IsLatest hashes votes latest →
      ((arrivals.map Prod.snd).filter fun vote =>
        voter hashes vote = voter hashes latest).foldl keepVote
          (mapVotes item)[voter hashes latest]? = some latest := by
    intro arrivals delivered latest isLatest
    rw [poll.first latest isLatest.1]
    exact spaced.foldl_keepVote delivered.order isLatest
  refine ⟨fun first second inFirst inSecond => ?_, fun arrivals delivered vote isLatest => ?_⟩
  · obtain ⟨one, isOne, entriesOne⟩ := poll.votesAfter inFirst
    obtain ⟨two, isTwo, entriesTwo⟩ := poll.votesAfter inSecond
    rw [isOne, isTwo]
    refine congrArg some (Std.ExtTreeMap.ext_getElem? fun key => ?_)
    rw [entriesOne, entriesTwo]
    by_cases votes_ : ∃ vote ∈ votes, voter hashes vote = key
    · obtain ⟨vote, member, rfl⟩ := votes_
      obtain ⟨latest, isLatest, same⟩ := exists_isLatest member
      rw [← same, entry first inFirst latest isLatest, entry second inSecond latest isLatest]
    · have noVotes : ∀ arrivals, Delivered hash votes arrivals →
          ((arrivals.map Prod.snd).filter fun vote => voter hashes vote = key) = [] := by
        intro arrivals delivered
        refine List.filter_eq_nil_iff.mpr fun vote member same => votes_ ?_
        exact ⟨vote, delivered.order.subset member, of_decide_eq_true same⟩
      rw [noVotes first inFirst, noVotes second inSecond]
  · obtain ⟨final, isFinal, entries⟩ := poll.votesAfter delivered
    rw [isFinal, Option.bind_some, entries, entry arrivals delivered vote isLatest]

/-- The latest vote is lost if it comes right after one that it does not replace. -/
theorem Poll.spaced_of_converges (poll : Poll hashes table hash item env votes)
    (converges : Converges hashes table hash votes) : Spaced hashes votes := by
  classical
  intro latest isLatest vote member same different
  have newer := isLatest.2 vote member same
  have near : nTime latest - nTime vote < 2 ^ 64 := by
    have low := (poll.range vote member).1
    have high := (poll.range latest isLatest.1).2
    omega
  rw [← isTooSoon_eq_false_iff newer near]
  by_contra close
  rw [Bool.not_eq_false] at close
  have nodup : votes.Nodup := List.Nodup.of_map _ poll.distinct
  have rest : latest ∈ votes.erase vote :=
    (List.mem_erase_of_ne (Ne.symm different)).mpr isLatest.1
  have perm : (vote :: latest :: (votes.erase vote).erase latest).Perm votes :=
    ((List.perm_cons_erase rest).symm.cons vote).trans (List.perm_cons_erase member).symm
  have delivered : Delivered hash votes
      ((vote :: latest :: (votes.erase vote).erase latest).map fun vote => (env, vote)) := by
    constructor
    · rw [List.map_map]
      exact (List.map_id _).symm ▸ perm
    · intro arrival inside
      obtain ⟨other, there, rfl⟩ := List.mem_map.mp inside
      exact poll.good other (perm.subset there)
  obtain ⟨final, isFinal, entries⟩ := poll.votesAfter delivered
  have kept := converges.latest _ delivered latest isLatest
  rw [isFinal, Option.bind_some, entries, poll.first latest isLatest.1, List.map_map,
    show (Prod.snd ∘ fun vote : β => (env, vote)) = id from rfl, List.map_id,
    List.filter_cons_of_pos (by simpa using same), List.filter_cons_of_pos (by simp),
    List.foldl_cons, List.foldl_cons] at kept
  have refused : keepVote (keepVote none vote) latest = some vote := by
    show (if isTooSoon latest vote then some vote else some latest) = _
    rw [if_pos close]
  rw [refused] at kept
  rcases List.mem_cons.mp (mem_of_foldl_keepVote kept) with first | later
  · exact different first.symm
  · exact (nodup.erase vote).not_mem_erase (List.mem_of_mem_filter later)

end

end VoteTable

namespace BudgetTables

open VoteTable

/-- **Votes on a proposal, and votes on a finalized budget, converge** if and only if the latest
vote of each masternode is at least an hour newer than its other votes, and by less than `2 ^ 63`
seconds. -/
theorem votes_converge_iff (hashes : BudgetHashes) :
    (∀ (table : VoteTable CBudgetProposal CBudgetVote) (hash : Uint256) (item : CBudgetProposal)
      (env : BudgetEnv) (votes : List CBudgetVote), Poll hashes table hash item env votes →
        (Converges hashes table hash votes ↔ Spaced hashes votes)) ∧
    (∀ (table : VoteTable CFinalizedBudget CFinalizedBudgetVote) (hash : Uint256)
      (item : CFinalizedBudget) (env : BudgetEnv) (votes : List CFinalizedBudgetVote),
        Poll hashes table hash item env votes →
          (Converges hashes table hash votes ↔ Spaced hashes votes)) :=
  ⟨fun _ _ _ _ _ poll => ⟨poll.spaced_of_converges, poll.converges_of_spaced⟩,
    fun _ _ _ _ _ poll => ⟨poll.spaced_of_converges, poll.converges_of_spaced⟩⟩

/-- The table of a node that knows the proposal. -/
def proposalTable : VoteTable CBudgetProposal CBudgetVote where
  items := (∅ : Std.ExtTreeMap Uint256 CBudgetProposal).insert 9 plainProposal

/-- A masternode votes twice, with this time between its votes. -/
def changedMind (seconds : Int) : List CBudgetVote :=
  [voteOf 0 [0, 1], { voteOf 0 [0, 1] with nVote := 2, nTime := 1599990000 + seconds }]

theorem poll_changedMind {seconds : Int} (two : seconds = 600 ∨ seconds = 7200) :
    Poll sumHashes proposalTable 9 plainProposal votingEnv (changedMind seconds) where
  known := Std.ExtTreeMap.getElem?_insert_self
  good := by
    intro vote member
    rcases List.mem_pair.mp member with rfl | rfl
    · exact ⟨⟨by decide, by decide, by decide⟩, by decide⟩
    · rcases two with rfl | rfl
      · exact ⟨⟨by decide, by decide, by decide⟩, by decide⟩
      · exact ⟨⟨by decide, by decide, by decide⟩, by decide⟩
  new := fun vote _ => Std.ExtTreeMap.contains_empty
  distinct := by
    rcases two with rfl | rfl
    · decide
    · decide
  first := fun vote _ => Std.ExtTreeMap.getElem?_empty
  times := by
    rcases two with rfl | rfl
    · decide
    · decide
  range := by
    rcases two with rfl | rfl
    · decide
    · decide

theorem votes_converge_twoHours :
    Converges sumHashes proposalTable 9 (changedMind 7200) := by
  refine (((votes_converge_iff sumHashes).1 proposalTable 9 plainProposal votingEnv
    (changedMind 7200) (poll_changedMind (Or.inr rfl)))).mpr ?_
  intro latest isLatest vote member same different
  rcases List.mem_pair.mp member with rfl | rfl
  · rcases List.mem_pair.mp isLatest.1 with rfl | rfl
    · exact absurd rfl different
    · decide
  · rcases List.mem_pair.mp isLatest.1 with rfl | rfl
    · exact absurd (isLatest.2 _ member same) (by decide)
    · exact absurd rfl different

/-- Of two votes ten minutes apart, the first to arrive stays. -/
theorem votes_not_converge_tenMinutes :
    ¬ ∀ (hashes : BudgetHashes) (table : VoteTable CBudgetProposal CBudgetVote) (hash : Uint256)
      (item : CBudgetProposal) (env : BudgetEnv) (votes : List CBudgetVote),
      Poll hashes table hash item env votes → Converges hashes table hash votes := by
  intro all
  have converges := all sumHashes proposalTable 9 plainProposal votingEnv (changedMind 600)
    (poll_changedMind (Or.inl rfl))
  have delivered : Delivered 9 (changedMind 600)
      ((changedMind 600).map fun vote => (votingEnv, vote)) := by
    constructor
    · rfl
    · intro arrival inside
      obtain ⟨vote, member, rfl⟩ := List.mem_map.mp inside
      exact (poll_changedMind (Or.inl rfl)).good vote member
  have kept := converges.latest _ delivered
    { voteOf 0 [0, 1] with nVote := 2, nTime := 1599990000 + 600 } ⟨by decide, by decide⟩
  exact absurd kept (by decide)

end BudgetTables

end GiantCore
