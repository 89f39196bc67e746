import GiantCore.Foundation.Run
import GiantCore.Masternode.Masternode

/-! # Winner votes

The vote tables of `masternode-payments.h`: the winner votes that were accepted
(`mapMasternodePayeeVotes`), the payees of each height with their vote counts
(`mapMasternodeBlocks`), and the last height each masternode voted for
(`mapMasternodesLastVote`), with the operations that change them. A winner vote
is stored under its hash, a digest of its payee, height and voter; the model
uses these three as the key and keeps the stored votes in a list, since no
operation depends on the order of the digests.

`AddPayee` looks a payee up by its script alone, so a vote for another level of
the same script is counted for the level that came first. The tallies are exact
as long as this does not happen (`tallies_exact_iff`).
-/

namespace GiantCore

open GiantCore.Foundation

/-- A payee of a block and its votes. -/
structure CMasternodePayee where
  scriptPubKey : CScript
  nVotes : Int
  level : Level
  deriving DecidableEq, Repr

/-- The payees that are voted for at a height. -/
structure CMasternodeBlockPayees where
  nBlockHeight : Int
  vecPayments : List CMasternodePayee := []
  deriving DecidableEq, Repr

/-- Add votes to the first payee with the script, or append it. -/
def addPayments (level : Level) (payeeIn : CScript) (nIncrement : Int) :
    List CMasternodePayee → List CMasternodePayee
  | [] => [⟨payeeIn, nIncrement, level⟩]
  | payee :: rest =>
      if payee.scriptPubKey = payeeIn then
        { payee with nVotes := payee.nVotes + nIncrement } :: rest
      else payee :: addPayments level payeeIn nIncrement rest

namespace CMasternodeBlockPayees

def addPayee (payees : CMasternodeBlockPayees) (level : Level) (payeeIn : CScript)
    (nIncrement : Int) : CMasternodeBlockPayees :=
  { payees with vecPayments := addPayments level payeeIn nIncrement payees.vecPayments }

/-- The loop of `GetPayee`: the first payee of the level with the most votes. -/
def bestPayee (level : Level) : Option CMasternodePayee → List CMasternodePayee →
    Option CMasternodePayee
  | best, [] => best
  | best, payee :: rest =>
      if payee.level ≠ level then bestPayee level best rest
      else if best.all fun payment => payee.nVotes > payment.nVotes then
        bestPayee level (some payee) rest
      else bestPayee level best rest

def getPayee (payees : CMasternodeBlockPayees) (level : Level) : Option CScript :=
  (bestPayee level none payees.vecPayments).map CMasternodePayee.scriptPubKey

end CMasternodeBlockPayees

/-- A vote for the payee of a height. The level is not part of the message. -/
structure CMasternodePaymentWinner where
  vinMasternode : CTxIn
  nBlockHeight : Int
  payee : CScript
  vchSig : List UInt8 := []
  payeeLevel : Level := .unknown
  deriving DecidableEq, Repr

/-- What `GetHash` digests. -/
def CMasternodePaymentWinner.getHash (winner : CMasternodePaymentWinner) :
    CScript × Int × COutPoint :=
  (winner.payee, winner.nBlockHeight, winner.vinMasternode.prevout)

/-- The vote tables, `masternodePayments`. -/
structure CMasternodePayments where
  mapMasternodePayeeVotes : List CMasternodePaymentWinner := []
  mapMasternodeBlocks : Std.ExtTreeMap Int CMasternodeBlockPayees := ∅
  mapMasternodesLastVote : Std.ExtTreeMap Uint256 Int := ∅

namespace CMasternodePayments

variable (payments : CMasternodePayments)

/-- The vote is stored already. -/
def hasVote (winner : CMasternodePaymentWinner) : Bool :=
  payments.mapMasternodePayeeVotes.any fun vote => vote.getHash == winner.getHash

/-- `GetBlockPayee`. -/
def getBlockPayee (nBlockHeight : Int) (level : Level) : Option CScript :=
  (payments.mapMasternodeBlocks[nBlockHeight]?).bind (·.getPayee level)

/-- The key of a voter and a level in `mapMasternodesLastVote`. -/
def lastVoteKey (outMasternode : COutPoint) (level : Level) : Uint256 :=
  ((outMasternode.hash + BitVec.ofNat 256 outMasternode.n.toNat) <<< 4) +
    BitVec.ofInt 256 level.toInt

/-- `CanVote`: a voter votes for increasing heights; the height is recorded. -/
def canVote (outMasternode : COutPoint) (nBlockHeight : Int) (level : Level) :
    CMasternodePayments × Bool :=
  let key := lastVoteKey outMasternode level
  let record := payments.mapMasternodesLastVote.insert key nBlockHeight
  match payments.mapMasternodesLastVote[key]? with
  | none => ({ payments with mapMasternodesLastVote := record }, true)
  | some last_vote =>
      if last_vote ≥ nBlockHeight then (payments, false)
      else ({ payments with mapMasternodesLastVote := record }, true)

/-- The voter has not voted at the level for this height or a higher one. -/
def isFresh (outMasternode : COutPoint) (nBlockHeight : Int) (level : Level) : Bool :=
  (payments.mapMasternodesLastVote[lastVoteKey outMasternode level]?).all (· < nBlockHeight)

theorem canVote_eq (outMasternode : COutPoint) (nBlockHeight : Int) (level : Level) :
    payments.canVote outMasternode nBlockHeight level =
      if payments.isFresh outMasternode nBlockHeight level then
        ({ payments with mapMasternodesLastVote :=
            payments.mapMasternodesLastVote.insert (lastVoteKey outMasternode level) nBlockHeight },
          true)
      else (payments, false) := by
  simp only [canVote, isFresh]
  split
  · rename_i unvoted
    simp [unvoted]
  · rename_i last_vote voted
    by_cases older : last_vote < nBlockHeight
    · simp [voted, older]
    · simp [voted, older, not_lt.mp older]

/-- `AddWinningMasternode`: store a new vote and count it, if the block that ranks
its voter is known. -/
def addWinningMasternode (node : NodeContext) (winner : CMasternodePaymentWinner) :
    CMasternodePayments × Bool :=
  if (node.getBlockHash (winner.nBlockHeight - 100)).isNone then (payments, false)
  else if payments.hasVote winner then (payments, false)
  else
    let blockPayees :=
      (payments.mapMasternodeBlocks[winner.nBlockHeight]?).getD ⟨winner.nBlockHeight, []⟩
    ({ payments with
        mapMasternodePayeeVotes := payments.mapMasternodePayeeVotes ++ [winner]
        mapMasternodeBlocks := payments.mapMasternodeBlocks.insert winner.nBlockHeight
          (blockPayees.addPayee winner.payeeLevel winner.payee 1) }, true)

/-- `CleanPaymentList`: forget the votes that are far below the tip, and the
payees of their heights. -/
def cleanPaymentList (node : NodeContext) (mnodeman : CMasternodeMan) : CMasternodePayments :=
  match if node.lockMain then node.tip else none with
  | none => payments
  | some tip =>
      let nLimit : Int := max (mnodeman.vMasternodes.length * 5 / 4 : Int) 1000
      let old := fun winner : CMasternodePaymentWinner =>
        decide (tip.nHeight - winner.nBlockHeight > nLimit)
      { payments with
        mapMasternodePayeeVotes := payments.mapMasternodePayeeVotes.filter (!old ·)
        mapMasternodeBlocks := (payments.mapMasternodePayeeVotes.filter old).foldl
          (fun blocks winner => blocks.erase winner.nBlockHeight) payments.mapMasternodeBlocks }

/-- The payees of a height. -/
def payeesAt (nBlockHeight : Int) : List CMasternodePayee :=
  (payments.mapMasternodeBlocks[nBlockHeight]?.map CMasternodeBlockPayees.vecPayments).getD []

end CMasternodePayments

/-! ## The votes of a list of payees -/

/-- The votes recorded for a level and a script. -/
def votesFor (payees : List CMasternodePayee) (level : Level) (script : CScript) : Int :=
  ((payees.filter fun payee => payee.level = level ∧ payee.scriptPubKey = script).map
    CMasternodePayee.nVotes).sum

@[simp] theorem votesFor_nil (level : Level) (script : CScript) : votesFor [] level script = 0 :=
  rfl

theorem votesFor_cons (payee : CMasternodePayee) (rest : List CMasternodePayee) (level : Level)
    (script : CScript) :
    votesFor (payee :: rest) level script =
      (if payee.level = level ∧ payee.scriptPubKey = script then payee.nVotes else 0) +
        votesFor rest level script := by
  unfold votesFor
  by_cases here : payee.level = level ∧ payee.scriptPubKey = script
  · simp [here]
  · simp [here]

/-- The payee that a vote for the script goes to. -/
def entryFor (payees : List CMasternodePayee) (script : CScript) : Option CMasternodePayee :=
  payees.find? fun payee => payee.scriptPubKey = script

section AddPayments

variable {level : Level} {script : CScript} {nIncrement : Int}

theorem entryFor_eq_none_iff {payees : List CMasternodePayee} :
    entryFor payees script = none ↔ script ∉ payees.map CMasternodePayee.scriptPubKey := by
  simp [entryFor, List.find?_eq_none]

theorem map_scriptPubKey_addPayments (payees : List CMasternodePayee) :
    (addPayments level script nIncrement payees).map CMasternodePayee.scriptPubKey =
      if script ∈ payees.map CMasternodePayee.scriptPubKey then
        payees.map CMasternodePayee.scriptPubKey
      else payees.map CMasternodePayee.scriptPubKey ++ [script] := by
  induction payees with
  | nil => rfl
  | cons payee rest ih =>
      unfold addPayments
      by_cases same : payee.scriptPubKey = script
      · simp [same]
      · simp only [if_neg same, List.map_cons, ih, List.mem_cons, Ne.symm same, false_or]
        split <;> simp

theorem nodup_addPayments {payees : List CMasternodePayee}
    (distinct : (payees.map CMasternodePayee.scriptPubKey).Nodup) :
    ((addPayments level script nIncrement payees).map CMasternodePayee.scriptPubKey).Nodup := by
  rw [map_scriptPubKey_addPayments]
  split
  · exact distinct
  · rename_i fresh
    rw [List.nodup_append]
    refine ⟨distinct, by simp, ?_⟩
    rintro known member _ new rfl
    exact fresh (List.mem_singleton.mp new ▸ member)

/-- The entry of a script after its votes were added. -/
theorem entryFor_addPayments_self (payees : List CMasternodePayee) :
    entryFor (addPayments level script nIncrement payees) script =
      some (match entryFor payees script with
        | some payee => { payee with nVotes := payee.nVotes + nIncrement }
        | none => ⟨script, nIncrement, level⟩) := by
  induction payees with
  | nil => simp [addPayments, entryFor]
  | cons payee rest ih =>
      unfold addPayments
      by_cases same : payee.scriptPubKey = script
      · simp [same, entryFor]
      · simpa [same, entryFor] using ih

/-- The entries of other scripts stay. -/
theorem entryFor_addPayments_of_ne {other : CScript} (different : other ≠ script)
    (payees : List CMasternodePayee) :
    entryFor (addPayments level script nIncrement payees) other = entryFor payees other := by
  induction payees with
  | nil => simp [addPayments, entryFor, Ne.symm different]
  | cons payee rest ih =>
      unfold addPayments
      by_cases same : payee.scriptPubKey = script
      · simp [same, entryFor, Ne.symm different]
      · simp only [if_neg same, entryFor, List.find?_cons] at ih ⊢
        split
        · rfl
        · exact ih

/-- The votes after an addition: they go to the level of the entry, if there is
one. -/
theorem votesFor_addPayments (payees : List CMasternodePayee) (tier : Level) (other : CScript) :
    votesFor (addPayments level script nIncrement payees) tier other =
      votesFor payees tier other +
        if other = script ∧ tier = ((entryFor payees script).map CMasternodePayee.level).getD level
        then nIncrement else 0 := by
  induction payees with
  | nil =>
      simp only [addPayments, votesFor_cons, votesFor_nil, entryFor, List.find?_nil,
        Option.map_none, Option.getD_none, Int.add_zero, Int.zero_add]
      exact if_congr ⟨fun both => ⟨both.2.symm, both.1.symm⟩,
        fun both => ⟨both.2.symm, both.1.symm⟩⟩ rfl rfl
  | cons payee rest ih =>
      unfold addPayments
      by_cases same : payee.scriptPubKey = script
      · subst same
        have entry : entryFor (payee :: rest) payee.scriptPubKey = some payee := by
          simp [entryFor]
        rw [if_pos rfl, entry, votesFor_cons, votesFor_cons]
        by_cases here : payee.level = tier ∧ payee.scriptPubKey = other
        · obtain ⟨rfl, rfl⟩ := here
          simp only [and_self, ↓reduceIte, Option.map_some, Option.getD_some]
          omega
        · have elsewhere : ¬ (other = payee.scriptPubKey ∧ tier = payee.level) := fun both =>
            here ⟨both.2.symm, both.1.symm⟩
          simp [here, elsewhere]
      · have tail : entryFor (payee :: rest) script = entryFor rest script := by
          simp [entryFor, same]
        rw [if_neg same, tail, votesFor_cons, votesFor_cons, ih]
        omega

end AddPayments

/-! ## Exact tallies -/

/-- The stored votes for a height and a script, whatever their level. -/
def votesAt (votes : List CMasternodePaymentWinner) (nBlockHeight : Int) (script : CScript) : Nat :=
  votes.countP fun vote => vote.nBlockHeight = nBlockHeight ∧ vote.payee = script

/-- The stored votes for a height, a level and a script. -/
def votesOf (votes : List CMasternodePaymentWinner) (nBlockHeight : Int) (level : Level)
    (script : CScript) : Nat :=
  votes.countP fun vote =>
    (vote.nBlockHeight = nBlockHeight ∧ vote.payee = script) ∧ vote.payeeLevel = level

/-- **The payees of a height against the stored votes.** Each script has one payee,
which counts all votes for the script and has the level of one of them. -/
structure Tallied (votes : List CMasternodePaymentWinner) (nBlockHeight : Int)
    (payees : List CMasternodePayee) : Prop where
  distinct : (payees.map CMasternodePayee.scriptPubKey).Nodup
  counted : ∀ script payee, entryFor payees script = some payee →
    payee.nVotes = votesAt votes nBlockHeight script ∧
      ∃ vote ∈ votes, vote.nBlockHeight = nBlockHeight ∧ vote.payee = script ∧
        vote.payeeLevel = payee.level
  covered : ∀ vote ∈ votes, vote.nBlockHeight = nBlockHeight →
    (entryFor payees vote.payee).isSome = true

/-- Votes for one height and script agree on the level. -/
def Uniform (votes : List CMasternodePaymentWinner) : Prop :=
  ∀ first ∈ votes, ∀ second ∈ votes, first.nBlockHeight = second.nBlockHeight →
    first.payee = second.payee → first.payeeLevel = second.payeeLevel

theorem tallied_nil (nBlockHeight : Int) : Tallied [] nBlockHeight [] where
  distinct := List.nodup_nil
  counted _ _ found := by cases found
  covered _ member := by cases member

/-- The recorded votes are those of the one payee with the script. -/
theorem votesFor_eq {payees : List CMasternodePayee}
    (distinct : (payees.map CMasternodePayee.scriptPubKey).Nodup) (level : Level)
    (script : CScript) :
    votesFor payees level script =
      ((entryFor payees script).filter fun payee => payee.level = level).elim 0
        CMasternodePayee.nVotes := by
  induction payees with
  | nil => rfl
  | cons payee rest ih =>
      rw [List.map_cons, List.nodup_cons] at distinct
      rw [votesFor_cons, ih distinct.2]
      by_cases same : payee.scriptPubKey = script
      · have gone : entryFor rest script = none :=
          entryFor_eq_none_iff.mpr (same ▸ distinct.1)
        have here : entryFor (payee :: rest) script = some payee := by simp [entryFor, same]
        rw [gone, here]
        by_cases tier : payee.level = level
        · simp [same, tier, Option.filter]
        · simp [tier, Option.filter]
      · have tail : entryFor (payee :: rest) script = entryFor rest script := by
          simp [entryFor, same]
        simp [same, tail]

namespace Tallied

variable {votes : List CMasternodePaymentWinner} {nBlockHeight : Int}
  {payees : List CMasternodePayee}

/-- A vote for the height joins its payee. -/
theorem add {winner : CMasternodePaymentWinner} (tallied : Tallied votes nBlockHeight payees)
    (height : winner.nBlockHeight = nBlockHeight) :
    Tallied (votes ++ [winner]) nBlockHeight
      (addPayments winner.payeeLevel winner.payee 1 payees) := by
  refine ⟨nodup_addPayments tallied.distinct, fun script payee found => ?_,
    fun vote member at_ => ?_⟩
  · by_cases same : script = winner.payee
    · subst same
      have one : votesAt (votes ++ [winner]) nBlockHeight winner.payee =
          votesAt votes nBlockHeight winner.payee + 1 := by
        simp [votesAt, height]
      rw [entryFor_addPayments_self, Option.some.injEq] at found
      subst found
      rw [one]
      cases entry : entryFor payees winner.payee with
      | none =>
          have unvoted : votesAt votes nBlockHeight winner.payee = 0 := by
            rw [votesAt, List.countP_eq_zero]
            intro vote member matching
            obtain ⟨at_, target⟩ := of_decide_eq_true matching
            have known := tallied.covered vote member at_
            rw [target, entry] at known
            cases known
          refine ⟨by simp [unvoted], winner, by simp, height, rfl, rfl⟩
      | some payee =>
          obtain ⟨count, vote, member, at_, target, tier⟩ := tallied.counted _ _ entry
          refine ⟨by simp [count], vote, by simp [member], at_, target, tier⟩
    · rw [entryFor_addPayments_of_ne same] at found
      obtain ⟨count, vote, member, at_, target, tier⟩ := tallied.counted _ _ found
      refine ⟨?_, vote, by simp [member], at_, target, tier⟩
      simp [count, votesAt, Ne.symm same]
  · by_cases same : vote.payee = winner.payee
    · rw [same, entryFor_addPayments_self]
      rfl
    · rw [entryFor_addPayments_of_ne same]
      rcases List.mem_append.mp member with old | new
      · exact tallied.covered vote old at_
      · exact (same (congrArg _ (List.mem_singleton.mp new))).elim

/-- Votes that are added or removed at other heights do not matter. -/
theorem of_votes {others : List CMasternodePaymentWinner}
    (tallied : Tallied votes nBlockHeight payees)
    (same : others.filter (fun vote => vote.nBlockHeight = nBlockHeight) =
      votes.filter (fun vote => vote.nBlockHeight = nBlockHeight)) :
    Tallied others nBlockHeight payees := by
  have member : ∀ vote : CMasternodePaymentWinner, vote.nBlockHeight = nBlockHeight →
      (vote ∈ others ↔ vote ∈ votes) := by
    intro vote at_
    have both := congrArg (vote ∈ ·) same
    simpa [at_] using both
  have count : ∀ script,
      votesAt others nBlockHeight script = votesAt votes nBlockHeight script := by
    intro script
    have split : ∀ list : List CMasternodePaymentWinner, votesAt list nBlockHeight script =
        (list.filter (fun vote => vote.nBlockHeight = nBlockHeight)).countP
          (fun vote => vote.payee = script) := by
      intro list
      rw [votesAt, List.countP_filter]
      exact List.countP_congr fun vote _ => by simp [and_comm]
    rw [split, split, same]
  refine ⟨tallied.distinct, fun script payee found => ?_, fun vote present at_ => ?_⟩
  · obtain ⟨nVotes, vote, present, at_, rest⟩ := tallied.counted _ _ found
    exact ⟨by rw [nVotes, count], vote, (member vote at_).mpr present, at_, rest⟩
  · exact tallied.covered vote ((member vote at_).mp present) at_

end Tallied

/-- All votes for a script are for one level when the count for the level is the
whole count. -/
theorem votesOf_eq_votesAt_iff (votes : List CMasternodePaymentWinner) (nBlockHeight : Int)
    (level : Level) (script : CScript) :
    votesOf votes nBlockHeight level script = votesAt votes nBlockHeight script ↔
      ∀ vote ∈ votes, vote.nBlockHeight = nBlockHeight → vote.payee = script →
        vote.payeeLevel = level := by
  induction votes with
  | nil => simp [votesOf, votesAt]
  | cons vote rest ih =>
      have fewer : votesOf rest nBlockHeight level script ≤ votesAt rest nBlockHeight script :=
        List.countP_mono_left fun other _ both => decide_eq_true (of_decide_eq_true both).1
      rw [List.forall_mem_cons, ← ih]
      simp only [votesOf, votesAt, List.countP_cons] at fewer ⊢
      by_cases here : vote.nBlockHeight = nBlockHeight ∧ vote.payee = script
      · by_cases tier : vote.payeeLevel = level
        · simp [here, tier]
        · simp only [here, tier, and_false, decide_false, Bool.false_eq_true, ↓reduceIte, and_self,
            decide_true, forall_const, false_and, iff_false]
          omega
      · have vacuous : vote.nBlockHeight = nBlockHeight → vote.payee = script →
            vote.payeeLevel = level := fun height target => (here ⟨height, target⟩).elim
        simp only [here, false_and, decide_false, Bool.false_eq_true, ↓reduceIte, Nat.add_zero]
        exact ⟨fun equal => ⟨vacuous, equal⟩, fun both => both.2⟩

theorem votesOf_eq_zero {votes : List CMasternodePaymentWinner} {nBlockHeight : Int}
    {level : Level} {script : CScript}
    (none : ∀ vote ∈ votes, vote.nBlockHeight = nBlockHeight → vote.payee = script →
      vote.payeeLevel ≠ level) : votesOf votes nBlockHeight level script = 0 := by
  rw [votesOf, List.countP_eq_zero]
  intro vote member matching
  obtain ⟨⟨height, target⟩, tier⟩ := of_decide_eq_true matching
  exact none vote member height target tier

namespace CMasternodePayments

/-- The stored votes and the payees of every height agree. -/
def Consistent (payments : CMasternodePayments) : Prop :=
  ∀ nBlockHeight,
    Tallied payments.mapMasternodePayeeVotes nBlockHeight (payments.payeesAt nBlockHeight)

/-- Every tally is the number of stored votes it stands for. -/
def Exact (payments : CMasternodePayments) : Prop :=
  ∀ nBlockHeight level script, votesFor (payments.payeesAt nBlockHeight) level script =
    votesOf payments.mapMasternodePayeeVotes nBlockHeight level script

/-- Tallies are exact when no script has votes for two levels, and only then. -/
theorem Consistent.exact_iff {payments : CMasternodePayments} (consistent : payments.Consistent) :
    payments.Exact ↔ Uniform payments.mapMasternodePayeeVotes := by
  constructor
  · intro exact first inFirst second inSecond height target
    have tallied := consistent first.nBlockHeight
    obtain ⟨payee, entry⟩ := Option.isSome_iff_exists.mp (tallied.covered first inFirst rfl)
    -- the payee counts all votes for its script, and exactness gives them all its level
    have tally := exact first.nBlockHeight payee.level first.payee
    rw [votesFor_eq tallied.distinct, entry] at tally
    simp only [Option.filter, decide_true, ↓reduceIte, Option.elim_some,
      (tallied.counted _ _ entry).1, Int.natCast_inj] at tally
    have tiers := (votesOf_eq_votesAt_iff _ _ _ _).mp tally.symm
    rw [tiers first inFirst rfl rfl, tiers second inSecond height.symm target.symm]
  · intro uniform nBlockHeight level script
    have tallied := consistent nBlockHeight
    rw [votesFor_eq tallied.distinct]
    cases entry : entryFor (payments.payeesAt nBlockHeight) script with
    | none =>
        have unvoted : votesOf payments.mapMasternodePayeeVotes nBlockHeight level script = 0 := by
          apply votesOf_eq_zero
          intro vote member height target
          have known := tallied.covered vote member height
          rw [target, entry] at known
          cases known
        simp [unvoted]
    | some payee =>
        obtain ⟨count, vote, member, at_, target, tier⟩ := tallied.counted _ _ entry
        have tiers : ∀ other ∈ payments.mapMasternodePayeeVotes,
            other.nBlockHeight = nBlockHeight → other.payee = script →
              other.payeeLevel = payee.level := by
          intro other present height script
          rw [← tier]
          exact uniform other present vote member (height.trans at_.symm)
            (script.trans target.symm)
        by_cases same : payee.level = level
        · have all := (votesOf_eq_votesAt_iff _ _ _ _).mpr (same ▸ tiers)
          simp [Option.filter, same, all, count]
        · have none : votesOf payments.mapMasternodePayeeVotes nBlockHeight level script = 0 :=
            votesOf_eq_zero fun other present height target wrong =>
              same ((tiers other present height target).symm.trans wrong)
          simp [Option.filter, same, none]

/-! ## Runs -/

/-- What happens to the vote tables, with the node as it is at that moment. -/
inductive Action where
  | add (node : NodeContext) (winner : CMasternodePaymentWinner)
  | clean (node : NodeContext) (mnodeman : CMasternodeMan)

def step (payments : CMasternodePayments) : Action → CMasternodePayments
  | .add node winner => (payments.addWinningMasternode node winner).1
  | .clean node mnodeman => payments.cleanPaymentList node mnodeman

/-- A vote that is accepted has the level of the stored votes for its height and
payee. -/
def LevelAgrees (payments : CMasternodePayments) : Action → Prop
  | .add node winner => (payments.addWinningMasternode node winner).2 = true →
      ∀ vote ∈ payments.mapMasternodePayeeVotes, vote.nBlockHeight = winner.nBlockHeight →
        vote.payee = winner.payee → vote.payeeLevel = winner.payeeLevel
  | .clean _ _ => True

variable {payments : CMasternodePayments}

/-- One vote more is counted at a height, for a script and the level it comes with. -/
def CountsVote (payments after : CMasternodePayments) (voteHeight : Int) (level : Level)
    (script : CScript) : Prop :=
  ∀ nBlockHeight, after.payeesAt nBlockHeight =
    if nBlockHeight = voteHeight then
      addPayments level script 1 (payments.payeesAt nBlockHeight)
    else payments.payeesAt nBlockHeight

/-- What `AddWinningMasternode` does: nothing, or it stores the vote and counts it. -/
theorem addWinningMasternode_cases (payments : CMasternodePayments) (node : NodeContext)
    (winner : CMasternodePaymentWinner) :
    payments.addWinningMasternode node winner = (payments, false) ∨
      ((payments.addWinningMasternode node winner).2 = true ∧
        (payments.addWinningMasternode node winner).1.mapMasternodePayeeVotes =
          payments.mapMasternodePayeeVotes ++ [winner] ∧
        (payments.addWinningMasternode node winner).1.mapMasternodesLastVote =
          payments.mapMasternodesLastVote ∧
        payments.CountsVote (payments.addWinningMasternode node winner).1 winner.nBlockHeight
          winner.payeeLevel winner.payee) := by
  unfold addWinningMasternode
  split
  · exact Or.inl rfl
  · split
    · exact Or.inl rfl
    · refine Or.inr ⟨rfl, rfl, rfl, fun nBlockHeight => ?_⟩
      by_cases same : nBlockHeight = winner.nBlockHeight
      · subst same
        cases found : payments.mapMasternodeBlocks[winner.nBlockHeight]? with
        | none => simp [payeesAt, CMasternodeBlockPayees.addPayee, found]
        | some block => simp [payeesAt, CMasternodeBlockPayees.addPayee, found]
      · simp [payeesAt, same, Std.ExtTreeMap.getElem?_insert, Ne.symm same]

/-- The map after a list of heights was erased. -/
theorem getElem?_foldl_erase (winners : List CMasternodePaymentWinner)
    (blocks : Std.ExtTreeMap Int CMasternodeBlockPayees) (nBlockHeight : Int) :
    (winners.foldl (fun blocks winner => blocks.erase winner.nBlockHeight) blocks)[nBlockHeight]? =
      if ∃ winner ∈ winners, winner.nBlockHeight = nBlockHeight then none
      else blocks[nBlockHeight]? := by
  induction winners generalizing blocks with
  | nil => simp
  | cons winner rest ih =>
      rw [List.foldl_cons, ih, Std.ExtTreeMap.getElem?_erase]
      by_cases later : ∃ winner ∈ rest, winner.nBlockHeight = nBlockHeight
      · have member : ∃ other ∈ winner :: rest, other.nBlockHeight = nBlockHeight := by
          obtain ⟨other, inside, height⟩ := later
          exact ⟨other, List.mem_cons_of_mem _ inside, height⟩
        rw [if_pos later, if_pos member]
      · rw [if_neg later]
        by_cases here : winner.nBlockHeight = nBlockHeight
        · simp [here]
        · simp only [List.mem_cons, exists_eq_or_imp, here, later, or_self, ↓reduceIte]
          simp [here]

/-- What `CleanPaymentList` does: nothing, or it drops the votes below some height
together with the payees there. -/
theorem cleanPaymentList_cases (payments : CMasternodePayments) (node : NodeContext)
    (mnodeman : CMasternodeMan) :
    payments.cleanPaymentList node mnodeman = payments ∨
      ∃ first : Int,
        (payments.cleanPaymentList node mnodeman).mapMasternodePayeeVotes =
          payments.mapMasternodePayeeVotes.filter (fun vote => first ≤ vote.nBlockHeight) ∧
        ∀ nBlockHeight, (payments.cleanPaymentList node mnodeman).payeesAt nBlockHeight =
          if nBlockHeight < first ∧
              ∃ vote ∈ payments.mapMasternodePayeeVotes, vote.nBlockHeight = nBlockHeight then []
          else payments.payeesAt nBlockHeight := by
  unfold cleanPaymentList
  split
  · exact Or.inl rfl
  · rename_i tip _
    generalize max (mnodeman.vMasternodes.length * 5 / 4 : Int) 1000 = nLimit
    refine Or.inr ⟨tip.nHeight - nLimit, ?_, fun nBlockHeight => ?_⟩
    · apply List.filter_congr
      intro vote _
      rw [← decide_not, decide_eq_decide]
      omega
    · have erased : (∃ vote ∈ payments.mapMasternodePayeeVotes.filter
          (fun vote => decide (tip.nHeight - vote.nBlockHeight > nLimit)),
            vote.nBlockHeight = nBlockHeight) ↔
          nBlockHeight < tip.nHeight - nLimit ∧
            ∃ vote ∈ payments.mapMasternodePayeeVotes, vote.nBlockHeight = nBlockHeight := by
        simp only [List.mem_filter, decide_eq_true_eq]
        constructor
        · rintro ⟨vote, ⟨member, old⟩, rfl⟩
          exact ⟨by omega, vote, member, rfl⟩
        · rintro ⟨old, vote, member, rfl⟩
          exact ⟨vote, ⟨member, by omega⟩, rfl⟩
      simp only [payeesAt, getElem?_foldl_erase]
      by_cases gone : nBlockHeight < tip.nHeight - nLimit ∧
          ∃ vote ∈ payments.mapMasternodePayeeVotes, vote.nBlockHeight = nBlockHeight
      · rw [if_pos gone, if_pos (erased.mpr gone)]
        rfl
      · rw [if_neg gone, if_neg (erased.not.mpr gone)]

theorem consistent_empty : ({} : CMasternodePayments).Consistent :=
  fun nBlockHeight => by simpa [payeesAt] using tallied_nil nBlockHeight

/-- Every step keeps the payees and the stored votes in agreement. -/
theorem Consistent.step (consistent : payments.Consistent) (action : Action) :
    (payments.step action).Consistent := by
  intro nBlockHeight
  cases action with
  | add node winner =>
      rcases addWinningMasternode_cases payments node winner with same | ⟨-, votes, -, counts⟩
      · simp only [CMasternodePayments.step, same]
        exact consistent nBlockHeight
      · simp only [CMasternodePayments.step, votes, counts nBlockHeight]
        split
        · rename_i height
          exact (consistent nBlockHeight).add height.symm
        · rename_i height
          exact (consistent nBlockHeight).of_votes (by simp [List.filter_append, Ne.symm height])
  | clean node mnodeman =>
      rcases cleanPaymentList_cases payments node mnodeman with same | ⟨first, votes, payees⟩
      · simp only [CMasternodePayments.step, same]
        exact consistent nBlockHeight
      · simp only [CMasternodePayments.step, votes, payees]
        split
        · rename_i old
          refine (tallied_nil nBlockHeight).of_votes ?_
          rw [List.filter_nil, List.filter_filter, List.filter_eq_nil_iff]
          intro vote member
          simp only [Bool.and_eq_true, decide_eq_true_eq, not_and]
          omega
        · rename_i kept
          refine (consistent nBlockHeight).of_votes ?_
          rw [List.filter_filter]
          apply List.filter_congr
          intro vote member
          rw [Bool.and_eq_left_iff_imp, decide_eq_true_eq, decide_eq_true_eq]
          intro height
          by_contra low
          exact kept ⟨by omega, vote, member, height⟩

/-- A step keeps the levels uniform exactly when the vote it accepts agrees. -/
theorem uniform_step_iff (uniform : Uniform payments.mapMasternodePayeeVotes) (action : Action) :
    Uniform (payments.step action).mapMasternodePayeeVotes ↔ payments.LevelAgrees action := by
  cases action with
  | add node winner =>
      rcases addWinningMasternode_cases payments node winner with same | ⟨added, votes, -, -⟩
      · simp [CMasternodePayments.step, LevelAgrees, same, uniform]
      · simp only [CMasternodePayments.step, LevelAgrees, votes, added, true_imp_iff]
        constructor
        · intro after vote member height target
          exact after vote (by simp [member]) winner (by simp) height target
        · intro agrees first inFirst second inSecond height target
          rcases List.mem_append.mp inFirst with old | new <;>
            rcases List.mem_append.mp inSecond with old' | new'
          · exact uniform first old second old' height target
          · rw [List.mem_singleton.mp new'] at height target ⊢
            exact agrees first old height target
          · rw [List.mem_singleton.mp new] at height target ⊢
            exact (agrees second old' height.symm target.symm).symm
          · rw [List.mem_singleton.mp new, List.mem_singleton.mp new']
  | clean node mnodeman =>
      simp only [LevelAgrees, iff_true, CMasternodePayments.step]
      rcases cleanPaymentList_cases payments node mnodeman with same | ⟨first, votes, -⟩
      · rw [same]
        exact uniform
      · rw [votes]
        intro one inOne other inOther
        exact uniform one (List.mem_of_mem_filter inOne) other (List.mem_of_mem_filter inOther)

/-- **Exact tallies.** In a run of additions and cleanings from empty tables, every
tally is exact at every moment if and only if no accepted vote finds a stored
vote for its height and payee at another level. -/
theorem tallies_exact_iff (actions : List Action) :
    (∀ payments ∈ Run.states step {} actions, payments.Exact) ↔
      Run.AllSteps step LevelAgrees {} actions := by
  refine Run.forall_states_iff Consistent Exact
    (fun payments action consistent => consistent.step action)
    (fun payments action _ consistent exact => ?_) consistent_empty ?_ fun _ _ => trivial
  · rw [(consistent.step action).exact_iff]
    exact uniform_step_iff (consistent.exact_iff.mp exact) action
  · rw [consistent_empty.exact_iff]
    intro first inFirst
    cases inFirst

/-- Two voters name one script, which belongs to a masternode and to a supernode:
the second vote is counted for the level of the first. -/
theorem not_exact_of_shared_script :
    ¬ ∀ (actions : List Action), ∀ payments ∈ Run.states step {} actions, payments.Exact := by
  intro exact
  let node := NodeContext.mainNode 400000
  let first : CMasternodePaymentWinner :=
    { vinMasternode := { prevout := ⟨1001, 0⟩ }, nBlockHeight := 400010, payee := [0x76, 5],
      payeeLevel := .masternode }
  let second : CMasternodePaymentWinner :=
    { vinMasternode := { prevout := ⟨1002, 0⟩ }, nBlockHeight := 400010, payee := [0x76, 5],
      payeeLevel := .supernode }
  have tally := exact [.add node first, .add node second]
    (step (step {} (.add node first)) (.add node second)) (by simp [Run.states])
    400010 .supernode [0x76, 5]
  exact absurd tally (by decide)

end CMasternodePayments

end GiantCore
