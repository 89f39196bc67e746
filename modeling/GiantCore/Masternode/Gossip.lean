import GiantCore.Masternode.Votes

/-! # Winner votes from the network

The handler of the `mnw` message in `ProcessMessageMasternodePayments`. It
decides from the masternode list and the vote tables whether a vote is counted.
The order of its tests matters: `CanVote` records the height of the vote before
the signature is looked at, and it accepts increasing heights only.

`mnwLevel` is the outcome of the tests that do not read the vote tables, and
`handleVote` is what the handler does to the tables; both depend on the
masternode list only through its checked entries, so a run of messages is a fold
of `handleVote` (`payments_foldl_mnwStep`).
-/

namespace GiantCore

/-- A `mnw` message with the protocol version of the peer that sent it. -/
structure MnwMessage where
  nVersion : Int
  winner : CMasternodePaymentWinner
  deriving DecidableEq, Repr

/-- Where the handler ends. -/
inductive MnwOutcome where
  | notSynced
  | liteMode
  | oldPeer
  | noTip
  | unknownPayee
  | alreadySeen
  | outOfRange
  | invalid
  | alreadyVoted
  | badSignature
  | notAdded
  | added
  deriving DecidableEq, Repr

/-- The state that the handler reads and changes. -/
structure GossipState where
  mnodeman : CMasternodeMan
  payments : CMasternodePayments

namespace CMasternodePaymentWinner

variable (node : NodeContext) (mnodeman : CMasternodeMan) (winner : CMasternodePaymentWinner)

/-- `MNPAYMENTS_SIGNATURES_TOTAL`. -/
def signaturesTotal : Int := 10

/-- `IsValid`. A rank of -1, for a block or a voter that is not ranked, passes. -/
def isValid : CMasternodeMan × Bool :=
  match mnodeman.find winner.vinMasternode with
  | none => (mnodeman, false)
  | some pmn =>
      if pmn.protocolVersion < node.activeProtocol then (mnodeman, false)
      else
        let (mnodeman, n) := mnodeman.getMasternodeRank node winner.vinMasternode
          (winner.nBlockHeight - 100) node.activeProtocol
        (mnodeman, n ≤ signaturesTotal)

/-- The text that the voter signs. -/
def message : String :=
  node.outpointText winner.vinMasternode.prevout ++ toString winner.nBlockHeight ++
    node.scriptText winner.payee

/-- `SignatureValid`. -/
def signatureValid : Bool :=
  match mnodeman.find winner.vinMasternode with
  | none => false
  | some pmn => node.verifyMessage pmn.pubKeyMasternode winner.vchSig (winner.message node)

end CMasternodePaymentWinner

/-- The vote with the level of its payee, which the handler fills in. -/
def MnwMessage.counted (message : MnwMessage) (level : Level) : CMasternodePaymentWinner :=
  { message.winner with payeeLevel := level }

/-- The height is between `nHeight - CountEnabled() * 1.25`, truncated to an
integer, and 20 blocks past the tip. -/
def inVoteWindow (nHeight : Int) (count : Nat) (nBlockHeight : Int) : Bool :=
  !(nBlockHeight < (4 * nHeight - 5 * count).tdiv 4 || nBlockHeight > nHeight + 20)

/-- The first tests of the handler, which look at the node and the peer only. -/
def mnwGate (node : NodeContext) (nVersion : Int) : Except MnwOutcome CBlockIndex :=
  if !node.isBlockchainSynced then .error .notSynced
  else if node.fLiteMode then .error .liteMode
  else if nVersion < node.activeProtocol then .error .oldPeer
  else if !node.lockMain then .error .noTip
  else
    match node.tip with
    | none => .error .noTip
    | some tip => .ok tip

/-- The handler of a `mnw` message. -/
def processMnw (node : NodeContext) (state : GossipState) (message : MnwMessage) :
    GossipState × MnwOutcome :=
  match mnwGate node message.nVersion, state.mnodeman.findPayee node message.winner.payee with
  | .error outcome, _ => (state, outcome)
  | .ok _, none => (state, .unknownPayee)
  | .ok tip, some winnerMn =>
      let winner := message.counted (winnerMn.getLevel node)
      if state.payments.hasVote winner then (state, .alreadySeen)
      else
        let (mnodeman, count) := state.mnodeman.countEnabled node Level.unknown.toInt (-1)
        if !inVoteWindow tip.nHeight count winner.nBlockHeight then
          ({ state with mnodeman }, .outOfRange)
        else
          let (mnodeman, valid) := winner.isValid node mnodeman
          if !valid then ({ state with mnodeman }, .invalid)
          else
            let (payments, canVote) := state.payments.canVote winner.vinMasternode.prevout
              winner.nBlockHeight winner.payeeLevel
            if !canVote then ({ mnodeman, payments }, .alreadyVoted)
            else if !winner.signatureValid node mnodeman then
              ({ mnodeman, payments }, .badSignature)
            else
              let (payments, added) := payments.addWinningMasternode node winner
              ({ mnodeman, payments }, if added then .added else .notAdded)

/-- One message as a step of the node. -/
def mnwStep (node : NodeContext) (state : GossipState) (message : MnwMessage) : GossipState :=
  (processMnw node state message).1

/-! ## What the handler does to the vote tables -/

/-- The level under which a vote is counted, if it passes the tests that do not
read the vote tables and stand before `CanVote`. -/
def mnwLevel (node : NodeContext) (mnodeman : CMasternodeMan) (message : MnwMessage) :
    Option Level :=
  match mnwGate node message.nVersion, mnodeman.findPayee node message.winner.payee with
  | .ok tip, some winnerMn =>
      let (mnodeman, count) := mnodeman.countEnabled node Level.unknown.toInt (-1)
      if inVoteWindow tip.nHeight count message.winner.nBlockHeight &&
          (message.winner.isValid node mnodeman).2 then some (winnerMn.getLevel node)
      else none
  | _, _ => none

/-- What the handler does to the vote tables. -/
def handleVote (node : NodeContext) (mnodeman : CMasternodeMan) (payments : CMasternodePayments)
    (message : MnwMessage) : CMasternodePayments :=
  match mnwLevel node mnodeman message with
  | none => payments
  | some level =>
      if payments.hasVote (message.counted level) then payments
      else
        let (recorded, canVote) := payments.canVote message.winner.vinMasternode.prevout
          message.winner.nBlockHeight level
        if canVote && message.winner.signatureValid node mnodeman then
          (recorded.addWinningMasternode node (message.counted level)).1
        else recorded

namespace MnwMessage

variable (node : NodeContext) (mnodeman : CMasternodeMan) (message : MnwMessage) (level : Level)

/-- The level is filled in, and what names the voter and the height stays. -/
@[simp] theorem counted_fields :
    (message.counted level).vinMasternode = message.winner.vinMasternode ∧
      (message.counted level).nBlockHeight = message.winner.nBlockHeight ∧
      (message.counted level).payeeLevel = level :=
  ⟨rfl, rfl, rfl⟩

/-- The validity of a vote and its signature do not depend on the level. -/
theorem isValid_counted : (message.counted level).isValid node mnodeman =
    message.winner.isValid node mnodeman := rfl

theorem signatureValid_counted : (message.counted level).signatureValid node mnodeman =
    message.winner.signatureValid node mnodeman := rfl

end MnwMessage

section Handler

variable (node : NodeContext) (mnodeman : CMasternodeMan)

@[simp] theorem signatureValid_checkAll (winner : CMasternodePaymentWinner) :
    winner.signatureValid node (mnodeman.checkAll node) = winner.signatureValid node mnodeman := by
  simp only [CMasternodePaymentWinner.signatureValid, CMasternodeMan.find_checkAll]
  cases mnodeman.find winner.vinMasternode with
  | none => rfl
  | some pmn => simp

theorem isValid_checkAll (winner : CMasternodePaymentWinner) :
    (winner.isValid node (mnodeman.checkAll node)).1 = mnodeman.checkAll node := by
  unfold CMasternodePaymentWinner.isValid
  split
  · rfl
  · split
    · rfl
    · exact mnodeman.getMasternodeRank_checkAll node _ _ _

@[simp] theorem mnwLevel_checkAll (message : MnwMessage) :
    mnwLevel node (mnodeman.checkAll node) message = mnwLevel node mnodeman message := by
  simp only [mnwLevel, CMasternodeMan.countEnabled_checkAll, CMasternodeMan.findPayee_checkAll]
  cases mnwGate node message.nVersion with
  | error outcome => rfl
  | ok tip =>
      cases mnodeman.findPayee node message.winner.payee with
      | none => rfl
      | some winnerMn => simp

@[simp] theorem handleVote_checkAll (payments : CMasternodePayments) (message : MnwMessage) :
    handleVote node (mnodeman.checkAll node) payments message =
      handleVote node mnodeman payments message := by
  simp only [handleVote, mnwLevel_checkAll, signatureValid_checkAll]

/-- **The handler, seen from the vote tables.** -/
theorem mnwStep_eq (state : GossipState) (message : MnwMessage) :
    (mnwStep node state message).payments =
        handleVote node state.mnodeman state.payments message ∧
      (mnwStep node state message).mnodeman.checkAll node = state.mnodeman.checkAll node := by
  unfold mnwStep processMnw handleVote mnwLevel
  cases mnwGate node message.nVersion with
  | error outcome => exact ⟨rfl, rfl⟩
  | ok tip =>
      cases state.mnodeman.findPayee node message.winner.payee with
      | none => exact ⟨rfl, rfl⟩
      | some winnerMn =>
          have checked := isValid_checkAll node state.mnodeman message.winner
          simp only [MnwMessage.isValid_counted, MnwMessage.signatureValid_counted,
            MnwMessage.counted_fields, CMasternodeMan.fst_countEnabled, checked,
            signatureValid_checkAll]
          by_cases seen : state.payments.hasVote (message.counted (winnerMn.getLevel node)) = true
          · simp only [seen, ↓reduceIte, and_true]
            split
            · rfl
            · rename_i level passed
              rw [Option.ite_none_right_eq_some, Option.some.injEq] at passed
              rw [← passed.2, if_pos seen]
          · by_cases window : inVoteWindow tip.nHeight (state.mnodeman.countEnabled node
                Level.unknown.toInt (-1)).2 message.winner.nBlockHeight = true
            · by_cases valid : (message.winner.isValid node (state.mnodeman.checkAll node)).2 = true
              · cases vote : (state.payments.canVote message.winner.vinMasternode.prevout
                    message.winner.nBlockHeight (winnerMn.getLevel node)).2 with
                | false => simp [seen, window, valid, vote]
                | true =>
                    cases signed : message.winner.signatureValid node state.mnodeman with
                    | false => simp [seen, window, valid, vote]
                    | true => simp [seen, window, valid, vote]
              · simp [seen, window, valid]
            · simp [seen, window]

/-- A run of messages is a fold over the vote tables. -/
theorem payments_foldl_mnwStep (state : GossipState) (messages : List MnwMessage) :
    (messages.foldl (mnwStep node) state).payments =
        messages.foldl (handleVote node state.mnodeman) state.payments ∧
      (messages.foldl (mnwStep node) state).mnodeman.checkAll node =
        state.mnodeman.checkAll node := by
  induction messages generalizing state with
  | nil => exact ⟨rfl, rfl⟩
  | cons message rest ih =>
      obtain ⟨tables, checked⟩ := mnwStep_eq node state message
      obtain ⟨tail, same⟩ := ih (mnwStep node state message)
      refine ⟨?_, same.trans checked⟩
      rw [List.foldl_cons, List.foldl_cons, tail, tables]
      congr 1
      funext payments other
      rw [← handleVote_checkAll, checked, handleVote_checkAll]

end Handler

/-! ## Votes with bad signatures -/

/-- The handler stops before `CanVote`, or `CanVote` refuses. -/
def Harmless (node : NodeContext) (state : GossipState) (message : MnwMessage) : Prop :=
  ∀ level, mnwLevel node state.mnodeman message = some level →
    state.payments.hasVote (message.counted level) = true ∨
      state.payments.isFresh message.winner.vinMasternode.prevout message.winner.nBlockHeight
        level = false

/-- Recording a fresh vote changes the table of last votes. -/
theorem record_ne {payments : CMasternodePayments} {outMasternode : COutPoint}
    {nBlockHeight : Int} {level : Level}
    (fresh : payments.isFresh outMasternode nBlockHeight level = true) :
    (payments.canVote outMasternode nBlockHeight level).1 ≠ payments := by
  intro same
  rw [CMasternodePayments.canVote_eq, if_pos fresh] at same
  rw [← same, CMasternodePayments.isFresh] at fresh
  simp at fresh

/-- A vote whose signature does not verify leaves the tables alone exactly when it
is harmless. -/
theorem handleVote_unsigned_iff {node : NodeContext} {state : GossipState} {message : MnwMessage}
    (unsigned : message.winner.signatureValid node state.mnodeman = false) :
    handleVote node state.mnodeman state.payments message = state.payments ↔
      Harmless node state message := by
  unfold handleVote Harmless
  cases mnwLevel node state.mnodeman message with
  | none => simp
  | some level =>
      simp only [Option.some.injEq, forall_eq', unsigned, Bool.and_false, Bool.false_eq_true,
        ↓reduceIte]
      by_cases seen : state.payments.hasVote (message.counted level) = true
      · simp [seen]
      · rw [if_neg seen]
        cases fresh : state.payments.isFresh message.winner.vinMasternode.prevout
            message.winner.nBlockHeight level with
        | true => simp [seen, record_ne fresh]
        | false => simp [CMasternodePayments.canVote_eq, fresh]

/-- **Votes with bad signatures.** A run of such votes leaves the tables as they
were, in every state, if and only if each of them is harmless when it arrives;
and then a later vote meets the tables as it would have without them. -/
theorem unsigned_votes_unchanged_iff (node : NodeContext) (start : GossipState)
    (messages : List MnwMessage)
    (unsigned : ∀ message ∈ messages,
      message.winner.signatureValid node start.mnodeman = false) :
    ((∀ state ∈ Foundation.Run.states (mnwStep node) start messages,
        state.payments = start.payments) ↔
      Foundation.Run.AllSteps (mnwStep node) (Harmless node) start messages) ∧
    (Foundation.Run.AllSteps (mnwStep node) (Harmless node) start messages →
      ∀ vote, (mnwStep node (messages.foldl (mnwStep node) start) vote).payments =
        (mnwStep node start vote).payments) := by
  have unchanged : (∀ state ∈ Foundation.Run.states (mnwStep node) start messages,
      state.payments = start.payments) ↔
        Foundation.Run.AllSteps (mnwStep node) (Harmless node) start messages := by
    refine Foundation.Run.forall_states_iff
      (fun state => state.mnodeman.checkAll node = start.mnodeman.checkAll node)
      (fun state => state.payments = start.payments)
      (fun state message checked => (mnwStep_eq node state message).2.trans checked)
      (fun state message bad checked same => ?_) rfl rfl unsigned
    rw [(mnwStep_eq node state message).1, ← same]
    apply handleVote_unsigned_iff
    rw [← signatureValid_checkAll, checked, signatureValid_checkAll]
    exact bad
  refine ⟨unchanged, fun harmless vote => ?_⟩
  have tables := unchanged.mpr harmless _ (Foundation.Run.foldl_mem_states start messages)
  have checked := (payments_foldl_mnwStep node start messages).2
  rw [(mnwStep_eq node _ vote).1, (mnwStep_eq node start vote).1, tables,
    ← handleVote_checkAll, checked, handleVote_checkAll]

/-- Two enabled masternodes at a height with tiers, and empty tables. -/
def twoMasternodes : GossipState where
  mnodeman := ⟨[CMasternode.enabledNode 1 (5000 * COIN), CMasternode.enabledNode 2 (5000 * COIN)]⟩
  payments := {}

/-- A vote of the first masternode for the second. -/
def voteFor (nBlockHeight : Int) (vchSig : List UInt8) : MnwMessage where
  nVersion := 70720
  winner :=
    { vinMasternode := { prevout := ⟨1001, 0⟩ }, nBlockHeight, payee := [0x76, 2], vchSig }

/-- One vote without a signature stops a signed vote for a lower height. -/
theorem not_unchanged_of_unsigned :
    ¬ ∀ (node : NodeContext) (state : GossipState) (message : MnwMessage),
      message.winner.signatureValid node state.mnodeman = false →
        (mnwStep node state message).payments = state.payments := by
  intro unchanged
  have same := unchanged (NodeContext.mainNode 400000) twoMasternodes (voteFor 400020 [])
    (by decide)
  have recorded := congrArg (fun payments => payments.mapMasternodesLastVote.isEmpty) same
  exact absurd recorded (by decide)

/-- A vote that is out of range is harmless. -/
theorem unsigned_votes_unchanged_outOfRange :
    (mnwStep (NodeContext.mainNode 400000) twoMasternodes (voteFor 400021 [])).payments =
      twoMasternodes.payments := by
  have stopped : mnwLevel (NodeContext.mainNode 400000) twoMasternodes.mnodeman
      (voteFor 400021 []) = none := by
    decide
  have harmless : Harmless (NodeContext.mainNode 400000) twoMasternodes (voteFor 400021 []) := by
    intro level passed
    rw [stopped] at passed
    cases passed
  have unchanged := unsigned_votes_unchanged_iff (NodeContext.mainNode 400000) twoMasternodes
    [voteFor 400021 []] (by decide)
  exact unchanged.1.mpr ⟨harmless, trivial⟩ _
    (Foundation.Run.foldl_mem_states twoMasternodes [voteFor 400021 []])

end GiantCore
