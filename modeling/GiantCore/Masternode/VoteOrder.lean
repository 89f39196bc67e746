import GiantCore.Foundation.Watermark
import GiantCore.Masternode.Gossip

/-! # The order of winner votes

Votes for several heights arrive in any order. `CanVote` keeps one height for
each voter and level, a high-water mark in the sense of `Foundation.Watermark`,
so a vote is lost when a vote of the same voter for a higher height came first.
The tallies after a set of votes are those before, plus one for each vote that
the mark keeps (`votesFor_foldl_handleVote`), and they are the same for every
order exactly when votes with a common mark agree (`tallies_order_independent_iff`).
-/

namespace GiantCore

open GiantCore.Foundation

variable (node : NodeContext) (mnodeman : CMasternodeMan)

/-- The level of the first masternode that a script pays. -/
def payeeLevel (script : CScript) : Level :=
  ((mnodeman.findPayee node script).map (CMasternode.getLevel node)).getD .unknown

/-- A vote with a good signature for a height in the window, from a voter among
the first ten. -/
structure ProperVote (message : MnwMessage) : Prop where
  signed : message.winner.signatureValid node mnodeman = true
  inWindow : ∃ tip, node.tip = some tip ∧ inVoteWindow tip.nHeight
    (mnodeman.countEnabled node Level.unknown.toInt (-1)).2 message.winner.nBlockHeight = true
  ranked : 1 ≤ (mnodeman.getMasternodeRank node message.winner.vinMasternode
      (message.winner.nBlockHeight - 100) node.activeProtocol).2 ∧
    (mnodeman.getMasternodeRank node message.winner.vinMasternode
      (message.winner.nBlockHeight - 100) node.activeProtocol).2 ≤
        CMasternodePaymentWinner.signaturesTotal

namespace MnwMessage

variable (message : MnwMessage)

/-- The height that is voted for. -/
def voteHeight : Int := message.winner.nBlockHeight

/-- The entry of the tables that is voted for. -/
def target : Int × CScript := (message.winner.nBlockHeight, message.winner.payee)

/-- The voter, the height and the level. -/
def voteId : COutPoint × Int × Level :=
  (message.winner.vinMasternode.prevout, message.winner.nBlockHeight,
    payeeLevel node mnodeman message.winner.payee)

/-- The key of the mark that the vote has to exceed. -/
def voteKey : Uint256 :=
  CMasternodePayments.lastVoteKey message.winner.vinMasternode.prevout
    (payeeLevel node mnodeman message.winner.payee)

/-- The vote passes the tests before `CanVote`, and is not stored. -/
def isCandidate (payments : CMasternodePayments) : Bool :=
  (mnwLevel node mnodeman message).isSome && !payments.hasVote message.winner

end MnwMessage

/-- The marks of the tables. -/
def CMasternodePayments.lastVote (payments : CMasternodePayments) (key : Uint256) : Option Int :=
  payments.mapMasternodesLastVote[key]?

theorem CMasternodePayments.lastVote_insert (payments : CMasternodePayments) (key : Uint256)
    (nBlockHeight : Int) :
    ({ payments with
        mapMasternodesLastVote := payments.mapMasternodesLastVote.insert key nBlockHeight } :
      CMasternodePayments).lastVote =
        Function.update payments.lastVote key (some nBlockHeight) := by
  funext other
  by_cases same : other = key
  · subst same
    simp [lastVote]
  · rw [Function.update_of_ne same]
    simp [lastVote, Std.ExtTreeMap.getElem?_insert, Ne.symm same]

/-- The level under which votes for a height and a script are counted. -/
def entryLevel (payments : CMasternodePayments) (nBlockHeight : Int) (script : CScript) : Level :=
  ((entryFor (payments.payeesAt nBlockHeight) script).map CMasternodePayee.level).getD
    (payeeLevel node mnodeman script)

variable {node mnodeman}

theorem mnwLevel_eq_some {message : MnwMessage} {level : Level}
    (passed : mnwLevel node mnodeman message = some level) :
    level = payeeLevel node mnodeman message.winner.payee := by
  unfold mnwLevel at passed
  split at passed
  · rename_i tip winnerMn gate known
    rw [Option.ite_none_right_eq_some, Option.some.injEq] at passed
    rw [payeeLevel, known, ← passed.2]
    rfl
  · cases passed

/-- The block that ranks the voter of a proper vote is known. -/
theorem ProperVote.known {message : MnwMessage} (proper : ProperVote node mnodeman message) :
    (node.getBlockHash (message.winner.nBlockHeight - 100)).isNone = false := by
  have ranked := proper.ranked.1
  cases hash : node.getBlockHash (message.winner.nBlockHeight - 100) with
  | none => simp [CMasternodeMan.getMasternodeRank, hash] at ranked
  | some _ => rfl

/-- What a proper vote does: a candidate above its mark is stored, counted and
remembered, and any other vote has no effect. -/
theorem handleVote_cases {message : MnwMessage} (proper : ProperVote node mnodeman message)
    (payments : CMasternodePayments) :
    (message.isCandidate node mnodeman payments = true ∧
      Watermark.fresh (MnwMessage.voteKey node mnodeman) MnwMessage.voteHeight payments.lastVote
        message = true ∧
      (handleVote node mnodeman payments message).mapMasternodePayeeVotes =
        payments.mapMasternodePayeeVotes ++
          [message.counted (payeeLevel node mnodeman message.winner.payee)] ∧
      (handleVote node mnodeman payments message).lastVote =
        Function.update payments.lastVote (message.voteKey node mnodeman)
          (some message.voteHeight) ∧
      payments.CountsVote (handleVote node mnodeman payments message) message.winner.nBlockHeight
        (payeeLevel node mnodeman message.winner.payee) message.winner.payee) ∨
    ((message.isCandidate node mnodeman payments = true →
      Watermark.fresh (MnwMessage.voteKey node mnodeman) MnwMessage.voteHeight payments.lastVote
        message = false) ∧
      handleVote node mnodeman payments message = payments) := by
  unfold MnwMessage.isCandidate
  cases passed : mnwLevel node mnodeman message with
  | none => exact Or.inr ⟨by simp, by rw [handleVote, passed]⟩
  | some level =>
      obtain rfl := mnwLevel_eq_some passed
      have sameVote : payments.hasVote (message.counted
          (payeeLevel node mnodeman message.winner.payee)) = payments.hasVote message.winner := rfl
      by_cases seen : payments.hasVote message.winner = true
      · refine Or.inr ⟨by simp [seen], ?_⟩
        rw [handleVote, passed]
        exact if_pos (sameVote ▸ seen)
      · have mark : payments.isFresh message.winner.vinMasternode.prevout
            message.winner.nBlockHeight (payeeLevel node mnodeman message.winner.payee) =
              Watermark.fresh (MnwMessage.voteKey node mnodeman) MnwMessage.voteHeight
                payments.lastVote message := rfl
        cases fresh : Watermark.fresh (MnwMessage.voteKey node mnodeman) MnwMessage.voteHeight
            payments.lastVote message with
        | false =>
            refine Or.inr ⟨fun _ => rfl, ?_⟩
            simp [handleVote, passed, sameVote, seen, CMasternodePayments.canVote_eq, mark, fresh]
        | true =>
            let recorded : CMasternodePayments :=
              { payments with
                mapMasternodesLastVote := payments.mapMasternodesLastVote.insert
                  (message.voteKey node mnodeman) message.winner.nBlockHeight }
            have result : handleVote node mnodeman payments message =
                (recorded.addWinningMasternode node (message.counted
                  (payeeLevel node mnodeman message.winner.payee))).1 := by
              simp [handleVote, passed, sameVote, seen, CMasternodePayments.canVote_eq, mark,
                fresh, proper.signed, recorded, MnwMessage.voteKey]
            have unseen : recorded.hasVote (message.counted
                (payeeLevel node mnodeman message.winner.payee)) = false :=
              Bool.not_eq_true _ ▸ seen
            have accepted : (recorded.addWinningMasternode node (message.counted
                (payeeLevel node mnodeman message.winner.payee))).2 = true := by
              simp [CMasternodePayments.addWinningMasternode, unseen, proper.known]
            rcases CMasternodePayments.addWinningMasternode_cases recorded node (message.counted
                (payeeLevel node mnodeman message.winner.payee))
              with same | ⟨-, votes, last, counts⟩
            · rw [same] at accepted
              cases accepted
            · refine Or.inl ⟨by simp [seen], rfl, ?_, ?_, ?_⟩
              · rw [result, votes]
              · rw [result, ← payments.lastVote_insert]
                funext key
                rw [CMasternodePayments.lastVote, last]
                rfl
              · rw [result]
                exact counts

/-- The votes of a list that the marks keep. -/
def keptVotes (node : NodeContext) (mnodeman : CMasternodeMan) (payments : CMasternodePayments)
    (messages : List MnwMessage) : List MnwMessage :=
  Watermark.keep (MnwMessage.voteKey node mnodeman) MnwMessage.voteHeight payments.lastVote
    (messages.filter (MnwMessage.isCandidate node mnodeman · payments))

/-- A stored vote is not the same as another vote of the list. -/
theorem isCandidate_of_stored {payments after : CMasternodePayments}
    {winner : CMasternodePaymentWinner} {other : MnwMessage}
    (stored : after.mapMasternodePayeeVotes = payments.mapMasternodePayeeVotes ++ [winner])
    (different : winner.getHash ≠ other.winner.getHash) :
    other.isCandidate node mnodeman after = other.isCandidate node mnodeman payments := by
  have other_hash : (winner.getHash == other.winner.getHash) = false :=
    beq_eq_false_iff_ne.mpr different
  simp [MnwMessage.isCandidate, CMasternodePayments.hasVote, stored, other_hash]

/-- Counting a vote keeps the level under which a script is counted. -/
theorem entryLevel_of_counts {payments after : CMasternodePayments} {voteHeight : Int}
    {payee : CScript}
    (counts : payments.CountsVote after voteHeight (payeeLevel node mnodeman payee) payee)
    (nBlockHeight : Int) (script : CScript) :
    entryLevel node mnodeman after nBlockHeight script =
      entryLevel node mnodeman payments nBlockHeight script := by
  unfold entryLevel
  rw [counts]
  split
  · by_cases same : script = payee
    · subst same
      rw [entryFor_addPayments_self]
      cases entryFor (payments.payeesAt nBlockHeight) script with
      | none => rfl
      | some entry => rfl
    · rw [entryFor_addPayments_of_ne same]
  · rfl

/-- Counting a vote adds one to the entry it is for. -/
theorem votesFor_of_counts {payments after : CMasternodePayments} {voteHeight : Int}
    {payee : CScript}
    (counts : payments.CountsVote after voteHeight (payeeLevel node mnodeman payee) payee)
    (nBlockHeight : Int) (level : Level) (script : CScript) :
    votesFor (after.payeesAt nBlockHeight) level script =
      votesFor (payments.payeesAt nBlockHeight) level script +
        if nBlockHeight = voteHeight ∧ script = payee ∧
            level = entryLevel node mnodeman payments nBlockHeight script then 1 else 0 := by
  rw [counts]
  by_cases height : nBlockHeight = voteHeight
  · rw [if_pos height, votesFor_addPayments]
    congr 1
    refine if_congr ?_ rfl rfl
    constructor
    · rintro ⟨rfl, counted⟩
      exact ⟨height, rfl, counted⟩
    · rintro ⟨-, rfl, counted⟩
      exact ⟨rfl, counted⟩
  · rw [if_neg height, if_neg fun all => height all.1, Int.add_zero]

/-- **The tallies after a run of votes** are those before, plus one for each vote
that is kept. -/
theorem votesFor_foldl_handleVote {messages : List MnwMessage}
    (proper : ∀ message ∈ messages, ProperVote node mnodeman message)
    (distinct : (messages.map fun message => message.winner.getHash).Nodup)
    (payments : CMasternodePayments) (nBlockHeight : Int) (level : Level) (script : CScript) :
    votesFor ((messages.foldl (handleVote node mnodeman) payments).payeesAt nBlockHeight) level
        script =
      votesFor (payments.payeesAt nBlockHeight) level script +
        if level = entryLevel node mnodeman payments nBlockHeight script then
          (((keptVotes node mnodeman payments messages).map MnwMessage.target).count
            (nBlockHeight, script) : Int)
        else 0 := by
  induction messages generalizing payments with
  | nil => simp [keptVotes, Watermark.keep]
  | cons message rest ih =>
      rw [List.forall_mem_cons] at proper
      rw [List.map_cons, List.nodup_cons] at distinct
      rw [List.foldl_cons, ih proper.2 distinct.2]
      rcases handleVote_cases proper.1 payments with
        ⟨candidate, fresh, votes, last, counts⟩ | ⟨stale, same⟩
      · have others : rest.filter (MnwMessage.isCandidate node mnodeman ·
            (handleVote node mnodeman payments message)) =
              rest.filter (MnwMessage.isCandidate node mnodeman · payments) := by
          refine List.filter_congr fun other member => isCandidate_of_stored votes fun equal => ?_
          exact distinct.1 (List.mem_map.mpr ⟨other, member, equal.symm⟩)
        have kept : keptVotes node mnodeman payments (message :: rest) =
            message ::
              keptVotes node mnodeman (handleVote node mnodeman payments message) rest := by
          simp only [keptVotes, List.filter_cons, candidate, ↓reduceIte, Watermark.keep, fresh,
            others, last]
        rw [kept, entryLevel_of_counts counts, votesFor_of_counts counts, List.map_cons,
          List.count_cons]
        have target : (message.target == (nBlockHeight, script)) =
            decide (nBlockHeight = message.winner.nBlockHeight ∧
              script = message.winner.payee) := by
          rw [Bool.eq_iff_iff, beq_iff_eq, decide_eq_true_eq, MnwMessage.target, Prod.mk.injEq]
          exact ⟨fun both => ⟨both.1.symm, both.2.symm⟩, fun both => ⟨both.1.symm, both.2.symm⟩⟩
        rw [target]
        by_cases here : nBlockHeight = message.winner.nBlockHeight ∧ script = message.winner.payee
        · by_cases counted : level = entryLevel node mnodeman payments nBlockHeight script
          · rw [if_pos ⟨here.1, here.2, counted⟩, if_pos counted, if_pos counted,
              if_pos (decide_eq_true here)]
            omega
          · rw [if_neg fun all => counted all.2.2, if_neg counted, if_neg counted]
            omega
        · have elsewhere : ¬ (nBlockHeight = message.winner.nBlockHeight ∧
              script = message.winner.payee ∧
                level = entryLevel node mnodeman payments nBlockHeight script) := fun all =>
            here ⟨all.1, all.2.1⟩
          simp only [here, elsewhere, ↓reduceIte, decide_false, Bool.false_eq_true, Nat.add_zero,
            Int.add_zero]
      · have kept : keptVotes node mnodeman payments (message :: rest) =
            keptVotes node mnodeman payments rest := by
          cases candidate : message.isCandidate node mnodeman payments with
          | false => simp [keptVotes, candidate]
          | true =>
              simp only [keptVotes, List.filter_cons, candidate, ↓reduceIte, Watermark.keep,
                stale candidate, Bool.false_eq_true]
        rw [same, kept]

/-- Two tables record the same votes for every height, level and payee. -/
def TalliesAlike (first second : CMasternodePayments) : Prop :=
  ∀ nBlockHeight level script, votesFor (first.payeesAt nBlockHeight) level script =
    votesFor (second.payeesAt nBlockHeight) level script

/-- Votes that differ in voter, height or level have different hashes. -/
theorem nodup_getHash {messages : List MnwMessage}
    (distinct : (messages.map (MnwMessage.voteId node mnodeman)).Nodup) :
    (messages.map fun message => message.winner.getHash).Nodup := by
  let identify : CScript × Int × COutPoint → COutPoint × Int × Level :=
    fun hash => (hash.2.2, hash.2.1, payeeLevel node mnodeman hash.1)
  refine List.Nodup.of_map identify ?_
  rw [List.map_map]
  exact distinct

/-- The tables after two runs are alike when the votes they kept have the same
targets. -/
theorem talliesAlike_foldl_iff {payments : CMasternodePayments} {first second : List MnwMessage}
    (properFirst : ∀ message ∈ first, ProperVote node mnodeman message)
    (properSecond : ∀ message ∈ second, ProperVote node mnodeman message)
    (distinctFirst : (first.map fun message => message.winner.getHash).Nodup)
    (distinctSecond : (second.map fun message => message.winner.getHash).Nodup) :
    TalliesAlike (first.foldl (handleVote node mnodeman) payments)
        (second.foldl (handleVote node mnodeman) payments) ↔
      ((keptVotes node mnodeman payments first).map MnwMessage.target).Perm
        ((keptVotes node mnodeman payments second).map MnwMessage.target) := by
  rw [List.perm_iff_count, TalliesAlike]
  constructor
  · intro alike ⟨nBlockHeight, script⟩
    have tally := alike nBlockHeight (entryLevel node mnodeman payments nBlockHeight script) script
    rw [votesFor_foldl_handleVote properFirst distinctFirst,
      votesFor_foldl_handleVote properSecond distinctSecond, if_pos rfl, if_pos rfl] at tally
    omega
  · intro counts nBlockHeight level script
    rw [votesFor_foldl_handleVote properFirst distinctFirst,
      votesFor_foldl_handleVote properSecond distinctSecond, counts]

/-- The orders of the candidates of a list are the candidates of its orders. -/
theorem forall_perm_filter_iff (candidate : MnwMessage → Bool) (messages : List MnwMessage)
    (alike : List MnwMessage → List MnwMessage → Prop) :
    (∀ first second : List MnwMessage, first.Perm messages → second.Perm messages →
      alike (first.filter candidate) (second.filter candidate)) ↔
    ∀ first second : List MnwMessage, first.Perm (messages.filter candidate) →
      second.Perm (messages.filter candidate) → alike first second := by
  constructor
  · intro orders first second firstPerm secondPerm
    -- put the votes that are no candidates at the end
    have extend : ∀ order : List MnwMessage, order.Perm (messages.filter candidate) →
        (order ++ messages.filter (!candidate ·)).Perm messages ∧
          (order ++ messages.filter (!candidate ·)).filter candidate = order := by
      intro order perm
      refine ⟨(perm.append_right _).trans (List.filter_append_perm _ _), ?_⟩
      rw [List.filter_append, List.filter_filter]
      have all : order.filter candidate = order := List.filter_eq_self.mpr fun vote member =>
        (List.mem_filter.mp (perm.mem_iff.mp member)).2
      simp [all]
    obtain ⟨fullFirst, sameFirst⟩ := extend first firstPerm
    obtain ⟨fullSecond, sameSecond⟩ := extend second secondPerm
    have result := orders _ _ fullFirst fullSecond
    rwa [sameFirst, sameSecond] at result
  · intro orders first second firstPerm secondPerm
    exact orders _ _ (firstPerm.filter _) (secondPerm.filter _)

/-- **The order of winner votes.** A set of proper votes, distinct in voter, height
and level, leaves the same tallies in every order if and only if any two of them
that the node could count, and that share their mark, are for the same height and
payee. -/
theorem tallies_order_independent_iff (node : NodeContext) (state : GossipState)
    (messages : List MnwMessage)
    (proper : ∀ message ∈ messages, ProperVote node state.mnodeman message)
    (distinct : (messages.map (MnwMessage.voteId node state.mnodeman)).Nodup) :
    (∀ first second : List MnwMessage, first.Perm messages → second.Perm messages →
      TalliesAlike (first.foldl (mnwStep node) state).payments
        (second.foldl (mnwStep node) state).payments) ↔
    Watermark.Agree (MnwMessage.voteKey node state.mnodeman) MnwMessage.voteHeight
      MnwMessage.target state.payments.lastVote
      (messages.filter (MnwMessage.isCandidate node state.mnodeman · state.payments)) := by
  have hashes := nodup_getHash distinct
  rw [← Watermark.keep_perm_iff, ← forall_perm_filter_iff _ messages fun first second =>
    ((Watermark.keep (MnwMessage.voteKey node state.mnodeman) MnwMessage.voteHeight
      state.payments.lastVote first).map MnwMessage.target).Perm
    ((Watermark.keep (MnwMessage.voteKey node state.mnodeman) MnwMessage.voteHeight
      state.payments.lastVote second).map MnwMessage.target)]
  refine forall_congr' fun first => forall_congr' fun second =>
    imp_congr_right fun firstPerm => imp_congr_right fun secondPerm => ?_
  rw [(payments_foldl_mnwStep node state first).1, (payments_foldl_mnwStep node state second).1]
  exact talliesAlike_foldl_iff
    (fun message member => proper message (firstPerm.mem_iff.mp member))
    (fun message member => proper message (secondPerm.mem_iff.mp member))
    ((firstPerm.map _).nodup_iff.mpr hashes) ((secondPerm.map _).nodup_iff.mpr hashes)

/-- Two signed votes of one masternode, for successive heights. -/
def successiveVotes : List MnwMessage := [voteFor 400010 [1, 1], voteFor 400011 [1, 1]]

theorem properVote_successiveVotes : ∀ message ∈ successiveVotes,
    ProperVote (NodeContext.mainNode 400000) twoMasternodes.mnodeman message := by
  intro message member
  simp only [successiveVotes, List.mem_cons, List.not_mem_nil, or_false] at member
  rcases member with rfl | rfl
  · exact ⟨by decide, ⟨_, rfl, by decide⟩, by decide⟩
  · exact ⟨by decide, ⟨_, rfl, by decide⟩, by decide⟩

theorem tallies_order_independent_iff_successiveVotes :
    (∀ first second : List MnwMessage, first.Perm successiveVotes → second.Perm successiveVotes →
      TalliesAlike (first.foldl (mnwStep (NodeContext.mainNode 400000)) twoMasternodes).payments
        (second.foldl (mnwStep (NodeContext.mainNode 400000)) twoMasternodes).payments) ↔
    Watermark.Agree
      (MnwMessage.voteKey (NodeContext.mainNode 400000) twoMasternodes.mnodeman)
      MnwMessage.voteHeight MnwMessage.target twoMasternodes.payments.lastVote
      (successiveVotes.filter (MnwMessage.isCandidate (NodeContext.mainNode 400000)
        twoMasternodes.mnodeman · twoMasternodes.payments)) := by
  exact tallies_order_independent_iff (NodeContext.mainNode 400000) twoMasternodes successiveVotes
    properVote_successiveVotes (by decide)

/-- The vote for the lower height is lost when it comes second. -/
theorem not_order_independent_successiveVotes :
    ¬ ∀ (node : NodeContext) (state : GossipState) (messages : List MnwMessage),
      (∀ message ∈ messages, ProperVote node state.mnodeman message) →
      (messages.map (MnwMessage.voteId node state.mnodeman)).Nodup →
      ∀ first second : List MnwMessage, first.Perm messages → second.Perm messages →
        TalliesAlike (first.foldl (mnwStep node) state).payments
          (second.foldl (mnwStep node) state).payments := by
  intro independent
  have alike := independent (NodeContext.mainNode 400000) twoMasternodes successiveVotes
    properVote_successiveVotes (by decide) successiveVotes successiveVotes.reverse
    (List.Perm.refl _) (List.reverse_perm _) 400010 .masternode [0x76, 2]
  exact absurd alike (by decide)

end GiantCore
