import GiantCore.Foundation.Decimal
import GiantCore.Masternode.Gossip

/-! # Who signed a winner vote

A voter signs the text of its collateral, the height and the payee, one after the other.
The level is not in the text, nor in the message: a node counts the vote for the level of
the first masternode in its own list that the payee belongs to, and when there is a payee
with the script at that height already, for the level of that payee. And nothing stands
between the number of the collateral's output and the height, so the text of one vote may
be that of another voter with the same key.

A vote is authentic when its key signed it for the level it is counted for.
-/

namespace GiantCore

open GiantCore.Foundation

/-- What a voter decides when it signs. -/
structure SignedVote where
  voter : COutPoint
  nBlockHeight : Int
  level : Level
  payee : CScript
  deriving DecidableEq, Repr

/-- The text that is signed; the level is not part of it. -/
def SignedVote.text (node : NodeContext) (vote : SignedVote) : String :=
  node.outpointText vote.voter ++ toString vote.nBlockHeight ++ node.scriptText vote.payee

/-- The vote as it is counted. -/
def CMasternodePaymentWinner.vote (winner : CMasternodePaymentWinner) : SignedVote :=
  ⟨winner.vinMasternode.prevout, winner.nBlockHeight, winner.payeeLevel, winner.payee⟩

/-- The text of a voter's vote for a payee gives the height back. -/
theorem SignedVote.nBlockHeight_of_text {node : NodeContext} {first second : SignedVote}
    (same : first.text node = second.text node) (voter : first.voter = second.voter)
    (payee : first.payee = second.payee) : first.nBlockHeight = second.nBlockHeight := by
  unfold text at same
  rw [voter, payee] at same
  obtain ⟨front, -⟩ := Decimal.append_inj_right same rfl
  obtain ⟨-, height⟩ := Decimal.append_inj_left front rfl
  exact Decimal.toString_injective height

/-- A message, with the node and its masternode list as they are when it comes. -/
structure MnwEvent where
  node : NodeContext
  mnodeman : CMasternodeMan
  message : MnwMessage

namespace MnwEvent

variable (event : MnwEvent)

/-- The vote tables after the message. -/
def receive (payments : CMasternodePayments) (event : MnwEvent) : CMasternodePayments :=
  (mnwStep event.node ⟨event.mnodeman, payments⟩ event.message).payments

/-- The key that the list has for a voter. -/
def voterKey (voter : COutPoint) : Option CPubKey :=
  (event.mnodeman.find { prevout := voter }).map CMasternode.pubKeyMasternode

variable (signed : CPubKey → SignedVote → Prop)

/-- Where the voter's key verifies the signature of the message, it signed the text. -/
def Unforgeable : Prop :=
  ∀ key, event.voterKey event.message.winner.vinMasternode.prevout = some key →
    event.node.verifyMessage key event.message.winner.vchSig
        (event.message.winner.message event.node) = true →
      ∃ vote, signed key vote ∧ vote.text event.node = event.message.winner.message event.node

/-- **The text and the level are those of a signed vote.** If the voter's key signed the
text of the message, it signed it for this voter and this payee; if it signed a vote for
the voter, height and payee, it signed one for the level of the payee in the list; and the
votes for the height and payee that are stored are for that level too. -/
def AsSigned (payments : CMasternodePayments) (event : MnwEvent) : Prop :=
  ∀ level key, mnwLevel event.node event.mnodeman event.message = some level →
    event.voterKey event.message.winner.vinMasternode.prevout = some key →
    (∀ vote, signed key vote → vote.text event.node = event.message.winner.message event.node →
      ∃ other, signed key other ∧ other.text event.node = vote.text event.node ∧
        other.voter = event.message.winner.vinMasternode.prevout ∧
        other.payee = event.message.winner.payee) ∧
    (∀ vote, signed key vote → vote.voter = event.message.winner.vinMasternode.prevout →
      vote.nBlockHeight = event.message.winner.nBlockHeight →
      vote.payee = event.message.winner.payee → signed key { vote with level }) ∧
    ∀ stored ∈ payments.mapMasternodePayeeVotes,
      stored.nBlockHeight = event.message.winner.nBlockHeight →
      stored.payee = event.message.winner.payee → stored.payeeLevel = level

end MnwEvent

section

variable (signed : CPubKey → SignedVote → Prop) (keys : COutPoint → CPubKey → Prop)

/-- **Counted votes are authentic**: the votes that a payee has at a height for a level are
the stored votes for them, no voter has two, and each was signed by a key of its voter for
exactly that height, level and payee. -/
structure CMasternodePayments.Authentic (payments : CMasternodePayments) : Prop where
  counted : payments.Exact
  once : (payments.mapMasternodePayeeVotes.map CMasternodePaymentWinner.getHash).Nodup
  signed : ∀ winner ∈ payments.mapMasternodePayeeVotes,
    ∃ key, keys winner.vinMasternode.prevout key ∧ signed key winner.vote

end

/-! ## One message -/

section

variable {signed : CPubKey → SignedVote → Prop} {keys : COutPoint → CPubKey → Prop}
  {payments : CMasternodePayments} {event : MnwEvent}

/-- What a message does to the votes: nothing, or a vote that passes the tests and carries
a good signature is added to them. -/
theorem MnwEvent.receive_cases (payments : CMasternodePayments) (event : MnwEvent) :
    ∃ marks,
      receive payments event = { payments with mapMasternodesLastVote := marks } ∨
      ∃ level, mnwLevel event.node event.mnodeman event.message = some level ∧
        event.message.winner.signatureValid event.node event.mnodeman = true ∧
        payments.hasVote (event.message.counted level) = false ∧
        receive payments event = { payments with mapMasternodesLastVote := marks }.step
          (.add event.node (event.message.counted level)) := by
  unfold receive
  rw [(mnwStep_eq event.node ⟨event.mnodeman, payments⟩ event.message).1, handleVote]
  cases mnwLevel event.node event.mnodeman event.message with
  | none => exact ⟨_, Or.inl rfl⟩
  | some level =>
      dsimp only
      rw [CMasternodePayments.canVote_eq]
      cases seen : payments.hasVote (event.message.counted level) with
      | true => exact ⟨_, Or.inl rfl⟩
      | false =>
          rw [if_neg Bool.false_ne_true]
          split
          · split
            · rename_i passed
              rw [Bool.and_eq_true] at passed
              exact ⟨_, Or.inr ⟨level, rfl, passed.2, seen, rfl⟩⟩
            · exact ⟨_, Or.inl rfl⟩
          · exact ⟨_, Or.inl rfl⟩

/-- A good signature under the voter's key is one of the vote as it is counted. -/
theorem MnwEvent.AsSigned.signed_vote (asSigned : event.AsSigned signed payments)
    (unforgeable : event.Unforgeable signed) {level : Level}
    (passed : mnwLevel event.node event.mnodeman event.message = some level)
    (valid : event.message.winner.signatureValid event.node event.mnodeman = true) :
    ∃ key, event.voterKey event.message.winner.vinMasternode.prevout = some key ∧
      signed key (event.message.counted level).vote := by
  unfold CMasternodePaymentWinner.signatureValid at valid
  split at valid
  · cases valid
  · rename_i pmn known
    have listed : event.voterKey event.message.winner.vinMasternode.prevout =
        some pmn.pubKeyMasternode := congrArg (Option.map CMasternode.pubKeyMasternode) known
    obtain ⟨cut, levels, -⟩ := asSigned level _ passed listed
    obtain ⟨first, was, text⟩ := unforgeable _ listed valid
    obtain ⟨vote, signedVote, same, voter, payee⟩ := cut first was text
    have texts : vote.text event.node = event.message.winner.vote.text event.node :=
      same.trans text
    have height := SignedVote.nBlockHeight_of_text texts voter payee
    refine ⟨_, listed, ?_⟩
    have level := levels vote signedVote voter height payee
    rw [voter, height, payee] at level
    exact level

/-- The hashes stay distinct when a vote that is not stored is added. -/
theorem nodup_add_vote {winner : CMasternodePaymentWinner}
    (once : (payments.mapMasternodePayeeVotes.map CMasternodePaymentWinner.getHash).Nodup)
    (fresh : payments.hasVote winner = false) :
    ((payments.mapMasternodePayeeVotes ++ [winner]).map
      CMasternodePaymentWinner.getHash).Nodup := by
  rw [List.map_append, List.map_singleton]
  refine once.append (List.nodup_singleton _) ?_
  intro hash stored own
  rw [List.mem_singleton.mp own] at stored
  obtain ⟨vote, member, same⟩ := List.mem_map.mp stored
  rw [CMasternodePayments.hasVote, List.any_eq_false] at fresh
  exact fresh vote member (beq_iff_eq.mpr same)

/-- **One message** leaves only authentic votes. -/
theorem CMasternodePayments.Authentic.receive (authentic : payments.Authentic signed keys)
    (consistent : payments.Consistent) (asSigned : event.AsSigned signed payments)
    (unforgeable : event.Unforgeable signed)
    (listed : ∀ voter key, event.voterKey voter = some key → keys voter key) :
    (MnwEvent.receive payments event).Authentic signed keys ∧
      (MnwEvent.receive payments event).Consistent := by
  obtain ⟨marks, same | ⟨level, passed, valid, fresh, went⟩⟩ :=
    MnwEvent.receive_cases payments event
  · rw [same]
    exact ⟨⟨authentic.counted, authentic.once, authentic.signed⟩, consistent⟩
  · let recorded : CMasternodePayments := { payments with mapMasternodesLastVote := marks }
    have before : recorded.Consistent := consistent
    have exactly : recorded.Exact := authentic.counted
    have after := before.step (.add event.node (event.message.counted level))
    rw [went]
    refine ⟨?_, after⟩
    obtain ⟨key, own, was⟩ := asSigned.signed_vote unforgeable passed valid
    obtain ⟨-, -, stored⟩ := asSigned level key passed own
    have agrees : recorded.LevelAgrees (.add event.node (event.message.counted level)) := by
      intro _ vote member height target
      exact stored vote member height target
    refine ⟨after.exact_iff.mpr ((uniform_step_iff (before.exact_iff.mp exactly) _).mpr agrees),
      ?_, ?_⟩
    · rcases addWinningMasternode_cases recorded event.node (event.message.counted level)
        with same | ⟨-, votes, -, -⟩
      · rw [CMasternodePayments.step, same]
        exact authentic.once
      · rw [CMasternodePayments.step, votes]
        exact nodup_add_vote authentic.once fresh
    · rcases addWinningMasternode_cases recorded event.node (event.message.counted level)
        with same | ⟨-, votes, -, -⟩
      · rw [CMasternodePayments.step, same]
        exact authentic.signed
      · rw [CMasternodePayments.step, votes]
        intro winner member
        rcases List.mem_append.mp member with old | new
        · exact authentic.signed winner old
        · rw [List.mem_singleton.mp new]
          exact ⟨key, listed _ _ own, was⟩

end

/-- **Winner votes are authentic** in every run in which the messages come as they were
signed. -/
theorem winner_votes_authentic (signed : CPubKey → SignedVote → Prop) (events : List MnwEvent)
    (unforgeable : ∀ event ∈ events, event.Unforgeable signed)
    (asSigned : Run.AllSteps MnwEvent.receive (fun payments event => event.AsSigned signed payments)
      {} events) :
    ∀ payments ∈ Run.states MnwEvent.receive {} events, payments.Authentic signed
      fun voter key => ∃ event ∈ events, event.voterKey voter = some key := by
  let keys : COutPoint → CPubKey → Prop := fun voter key =>
    ∃ event ∈ events, event.voterKey voter = some key
  have fits : ∀ event ∈ events, event.Unforgeable signed ∧
      ∀ voter key, event.voterKey voter = some key → keys voter key :=
    fun event member => ⟨unforgeable event member, fun _ _ own => ⟨event, member, own⟩⟩
  have both : ∀ payments ∈ Run.states MnwEvent.receive {} events,
      payments.Authentic signed keys ∧ payments.Consistent := by
    refine Run.invariant_states_of_steps ?_ ?_ (asSigned.and_forall fits)
    · rintro payments event ⟨condition, unforgeable, listed⟩ ⟨authentic, consistent⟩
      exact authentic.receive consistent condition unforgeable listed
    · refine ⟨⟨?_, List.nodup_nil, ?_⟩, CMasternodePayments.consistent_empty⟩
      · rw [CMasternodePayments.consistent_empty.exact_iff]
        intro first inFirst
        cases inFirst
      · intro winner member
        cases member
  exact fun payments reached => (both payments reached).1

/-! ## A payee with two masternodes -/

/-- A vote of the first masternode for the address of the second. -/
def signedFor (level : Level) : SignedVote := ⟨⟨1001, 0⟩, 400010, level, [0x76, 2]⟩

/-- The key of the first masternode signed one vote. -/
def signedVote (level : Level) (key : CPubKey) (vote : SignedVote) : Prop :=
  key = [1, 1] ∧ vote = signedFor level

/-- The node at which its signature verifies; it is the same for every level. -/
def NodeContext.verifyingNode : NodeContext :=
  { mainNode 400000 with
    verifyMessage := fun key vchSig text =>
      key == [1, 1] && vchSig == [9] && text == "1001-0400010[118, 2]" }

/-- The address of the second masternode has a supernode too. -/
def sharedAddress : CMasternodeMan :=
  ⟨[CMasternode.enabledNode 1 (5000 * COIN), CMasternode.enabledNode 2 (5000 * COIN),
    { CMasternode.enabledNode 3 (20000 * COIN) with pubKeyCollateralAddress := [2] }]⟩

/-- The vote comes in. -/
def sharedEvent : MnwEvent := ⟨.verifyingNode, sharedAddress, voteFor 400010 [9]⟩

theorem unforgeable_sharedEvent (level : Level) : sharedEvent.Unforgeable (signedVote level) := by
  rintro key listed -
  have first : sharedEvent.voterKey sharedEvent.message.winner.vinMasternode.prevout =
      some [1, 1] := by
    decide +kernel
  rw [first] at listed
  cases listed
  have text : (signedFor level).text sharedEvent.node =
      sharedEvent.message.winner.message sharedEvent.node := by
    rfl
  exact ⟨_, ⟨rfl, rfl⟩, text⟩

/-- The vote is counted for the masternode, which is first in the list. -/
theorem payeeVotes_sharedEvent :
    (MnwEvent.receive {} sharedEvent).mapMasternodePayeeVotes =
      [(voteFor 400010 [9]).counted .masternode] := by
  decide +kernel

/-- The level of the masternode is the one that was voted for. -/
theorem winner_votes_authentic_sharedEvent :
    (MnwEvent.receive {} sharedEvent).mapMasternodePayeeVotes.length = 1 ∧
    ∀ payments ∈ Run.states MnwEvent.receive {} [sharedEvent],
      payments.Authentic (signedVote .masternode)
        fun voter key => ∃ event ∈ [sharedEvent], event.voterKey voter = some key := by
  refine ⟨by rw [payeeVotes_sharedEvent]; rfl, ?_⟩
  refine winner_votes_authentic (signedVote .masternode) [sharedEvent] ?_ ⟨?_, trivial⟩
  · intro event member
    rw [List.mem_singleton.mp member]
    exact unforgeable_sharedEvent .masternode
  · intro level key passed own
    have tier : mnwLevel sharedEvent.node sharedEvent.mnodeman sharedEvent.message =
        some .masternode := by
      decide +kernel
    rw [tier] at passed
    cases passed
    refine ⟨?_, ?_, ?_⟩
    · rintro vote was -
      exact ⟨vote, was, rfl, by rw [was.2]; rfl, by rw [was.2]; rfl⟩
    · rintro vote ⟨rfl, rfl⟩ - - -
      exact ⟨rfl, rfl⟩
    · intro stored member
      cases member

/-- A vote for the supernode of the address is counted for its masternode. -/
theorem not_winner_votes_authentic_shared :
    ¬ ∀ (signed : CPubKey → SignedVote → Prop) (events : List MnwEvent),
      (∀ event ∈ events, event.Unforgeable signed) →
      ∀ payments ∈ Run.states MnwEvent.receive {} events, payments.Authentic signed
        fun voter key => ∃ event ∈ events, event.voterKey voter = some key := by
  intro always
  have authentic := always (signedVote .supernode) [sharedEvent] (by
      intro event member
      rw [List.mem_singleton.mp member]
      exact unforgeable_sharedEvent .supernode) _ (Run.foldl_mem_states _ _)
  obtain ⟨key, -, -, same⟩ := authentic.signed ((voteFor 400010 [9]).counted .masternode) (by
    rw [List.foldl_cons, List.foldl_nil, payeeVotes_sharedEvent]
    exact List.mem_singleton_self _)
  exact absurd same (by decide)

end GiantCore
