import GiantCore.Foundation.Decimal
import GiantCore.Spork.Persistence

/-! # Who signed a spork

A spork is signed as the text of its number, its value and its time, one after the other.
The numbers of sporks have five digits, but the value and the time are not separated: the
signature of one spork is that of every other whose digits are the same and which is cut
between value and time at another place. Such a spork with a later time replaces the one
that was signed.
-/

namespace GiantCore

open Foundation.Decimal

/-- Number, value and time. -/
def CSporkMessage.triple (spork : CSporkMessage) : Int × Int × Int :=
  (spork.nSporkID, spork.nValue, spork.nTimeSigned)

/-- The text of a spork. -/
def sporkText (triple : Int × Int × Int) : String :=
  toString triple.1 ++ toString triple.2.1 ++ toString triple.2.2

/-- Two sporks have as many digits of the number, and of the time. -/
def CutAlike (first second : Int × Int × Int) : Prop :=
  (toString first.1).length = (toString second.1).length ∧
    (toString first.2.2).length = (toString second.2.2).length

/-- **A text gives its spork back** together with the places where it is cut. -/
theorem eq_of_sporkText {first second : Int × Int × Int} (same : sporkText first = sporkText second)
    (alike : CutAlike first second) : first = second := by
  obtain ⟨id, value, time⟩ := first
  obtain ⟨id', value', time'⟩ := second
  obtain ⟨ids, times⟩ := alike
  obtain ⟨front, last⟩ := append_inj_right same times
  obtain ⟨number, middle⟩ := append_inj_left front ids
  rw [Prod.mk.injEq, Prod.mk.injEq]
  exact ⟨toString_injective number, toString_injective middle, toString_injective last⟩

/-- The numbers of sporks have five digits. -/
theorem length_of_name {id : Int} (known : getSporkNameByID id ≠ "Unknown") :
    (toString id).length = 5 := by
  have all : ∀ entry ∈ sporkNames, (toString entry.1).length = 5 := by decide +kernel
  obtain ⟨entry, member, rfl⟩ := exists_entry_of_name known
  exact all entry member

/-- Of two sporks with the same text the digits of the times decide. -/
theorem triple_eq_iff {first second : CSporkMessage}
    (known : getSporkNameByID first.nSporkID ≠ "Unknown")
    (knownToo : getSporkNameByID second.nSporkID ≠ "Unknown")
    (same : first.strMessage = second.strMessage) :
    first.triple = second.triple ↔
      (toString first.nTimeSigned).length = (toString second.nTimeSigned).length := by
  constructor
  · intro equal
    have times : first.nTimeSigned = second.nTimeSigned := congrArg (fun triple => triple.2.2) equal
    rw [times]
  · intro times
    have texts : sporkText first.triple = sporkText second.triple := same
    apply eq_of_sporkText texts
    exact ⟨(length_of_name known).trans (length_of_name knownToo).symm, times⟩

section

variable (sporkKey sporkKeyOld : CPubKey) (signed : CPubKey → Int × Int × Int → Prop)

/-- The keys are those of the network, and where one of them verifies the signature of the spork,
it signed the text of the spork. -/
structure SporkContext.OfNetwork (ctx : SporkContext) (spork : CSporkMessage) : Prop where
  newKey : ctx.sporkKey = sporkKey
  oldKey : ctx.sporkKeyOld = sporkKeyOld
  unforgeable : ∀ key, key = sporkKey ∨ key = sporkKeyOld →
    ctx.node.verifyMessage key spork.vchSig spork.strMessage = true →
    ∃ triple, signed key triple ∧ sporkText triple = spork.strMessage

/-- **Every active spork was signed** as it is. -/
def SporkState.Authentic (state : SporkState) : Prop :=
  ∀ id spork, state.mapSporksActive id = some spork →
    spork.nSporkID = id ∧ (signed sporkKey spork.triple ∨ signed sporkKeyOld spork.triple)

/-- Where the text of a spork was signed, it was signed for one that is cut alike. -/
def CSporkMessage.CutAsSigned (spork : CSporkMessage) : Prop :=
  ∀ key triple, signed key triple → sporkText triple = spork.strMessage →
    CutAlike triple spork.triple

/-- One message. -/
def SporkState.receive (state : SporkState) (message : SporkContext × CSporkMessage) :
    SporkState :=
  (state.processSpork message.1 message.2).1

end

section

variable {sporkKey sporkKeyOld : CPubKey} {signed : CPubKey → Int × Int × Int → Prop}
  {ctx : SporkContext} {spork : CSporkMessage}

/-- One of the keys verifies. -/
theorem SporkContext.verify_of_checkSignature {fCheckSigner : Bool}
    (valid : ctx.checkSignature spork fCheckSigner = true) :
    ctx.node.verifyMessage ctx.sporkKey spork.vchSig spork.strMessage = true ∨
      ctx.node.verifyMessage ctx.sporkKeyOld spork.vchSig spork.strMessage = true := by
  unfold checkSignature at valid
  dsimp only at valid
  split at valid
  · cases valid
  · split at valid
    · exact Or.inr valid
    · exact Or.inl valid

/-- A signature that verifies is one of the spork itself. -/
theorem SporkContext.OfNetwork.signed_of_verify
    (network : ctx.OfNetwork sporkKey sporkKeyOld signed spork) (cut : spork.CutAsSigned signed)
    {key : CPubKey} (own : key = sporkKey ∨ key = sporkKeyOld)
    (valid : ctx.node.verifyMessage key spork.vchSig spork.strMessage = true) :
    signed key spork.triple := by
  obtain ⟨triple, was, text⟩ := network.unforgeable key own valid
  have same : triple = spork.triple := eq_of_sporkText text (cut key triple was text)
  rwa [← same]

/-- **One message** leaves only sporks that were signed. -/
theorem SporkState.Authentic.receive {state : SporkState}
    (authentic : state.Authentic sporkKey sporkKeyOld signed)
    (network : ctx.OfNetwork sporkKey sporkKeyOld signed spork)
    (cut : spork.CutAsSigned signed) :
    (state.receive (ctx, spork)).Authentic sporkKey sporkKeyOld signed := by
  unfold SporkState.receive
  rcases processSpork_cases ctx state spork with same | ⟨-, valid, -, went⟩
  · rw [same]
    exact authentic
  · rw [went]
    intro id other active
    rw [mapSporksActive_writeSpork, mapSporksActive_activate] at active
    split at active
    · rename_i own
      cases active
      refine ⟨own.symm, ?_⟩
      rcases SporkContext.verify_of_checkSignature valid with new | old
      · rw [network.newKey] at new
        exact Or.inl (network.signed_of_verify cut (.inl rfl) new)
      · rw [network.oldKey] at old
        exact Or.inr (network.signed_of_verify cut (.inr rfl) old)
    · exact authentic id other active

end

/-- **Sporks are authentic** in every run in which no message has the text of a signed
spork cut at another place. Of two sporks with the same text, those with as many digits
of the time are the same. -/
theorem sporks_authentic (sporkKey sporkKeyOld : CPubKey)
    (signed : CPubKey → Int × Int × Int → Prop) (messages : List (SporkContext × CSporkMessage))
    (network : ∀ message ∈ messages,
      message.1.OfNetwork sporkKey sporkKeyOld signed message.2)
    (cut : ∀ message ∈ messages, message.2.CutAsSigned signed) :
    (∀ first second : CSporkMessage, getSporkNameByID first.nSporkID ≠ "Unknown" →
      getSporkNameByID second.nSporkID ≠ "Unknown" → first.strMessage = second.strMessage →
      (first.triple = second.triple ↔
        (toString first.nTimeSigned).length = (toString second.nTimeSigned).length)) ∧
    ∀ state ∈ Foundation.Run.states SporkState.receive {} messages,
      state.Authentic sporkKey sporkKeyOld signed := by
  refine ⟨fun first second => triple_eq_iff, ?_⟩
  have both : ∀ message ∈ messages,
      message.1.OfNetwork sporkKey sporkKeyOld signed message.2 ∧ message.2.CutAsSigned signed :=
    fun message member => ⟨network message member, cut message member⟩
  refine Foundation.Run.invariant_states_of_steps ?_ ?_
    (Foundation.Run.allSteps_of_forall fun _ => both)
  · intro state message fits authentic
    exact authentic.receive fits.1 fits.2
  · intro id spork active
    cases active

/-! ## A spork that was signed for another value -/

/-- The key signed the value 15 for the first spork. -/
def signedOnce (key : CPubKey) (triple : Int × Int × Int) : Prop :=
  key = [4] ∧ triple = (10001, 15, 1561593600)

/-- The signature verifies for this text. -/
def verifyOnce (key : CPubKey) (vchSig : List UInt8) (text : String) : Bool :=
  key == [4] && vchSig == [9] && text == "10001151561593600"

theorem ofNetwork_once (spork : CSporkMessage) :
    (SporkContext.main verifyOnce).OfNetwork [4] [4] signedOnce spork := by
  refine ⟨rfl, rfl, ?_⟩
  rintro key - valid
  simp only [SporkContext.main, verifyOnce, Bool.and_eq_true, beq_iff_eq] at valid
  obtain ⟨⟨rfl, -⟩, text⟩ := valid
  exact ⟨_, ⟨rfl, rfl⟩, by rw [text]; decide +kernel⟩

/-- The spork that was signed comes in. -/
theorem sporks_authentic_once :
    ((SporkState.receive {} (.main verifyOnce, ⟨10001, 15, 1561593600, [9]⟩)).mapSporksActive
      10001).isSome = true ∧
    ∀ state ∈ Foundation.Run.states SporkState.receive {}
        [(.main verifyOnce, ⟨10001, 15, 1561593600, [9]⟩)],
      state.Authentic [4] [4] signedOnce := by
  refine ⟨by decide +kernel, ?_⟩
  refine (sporks_authentic [4] [4] signedOnce _ ?_ ?_).2
  · intro message member
    rw [List.mem_singleton.mp member]
    exact ofNetwork_once _
  · intro message member
    rw [List.mem_singleton.mp member]
    rintro key triple ⟨-, rfl⟩ -
    exact ⟨rfl, rfl⟩

/-- The same digits come in with the value 1 and a later time. -/
theorem not_sporks_authentic_cut :
    ¬ ∀ (sporkKey sporkKeyOld : CPubKey) (signed : CPubKey → Int × Int × Int → Prop)
      (messages : List (SporkContext × CSporkMessage)),
      (∀ message ∈ messages, message.1.OfNetwork sporkKey sporkKeyOld signed message.2) →
      (∀ first second : CSporkMessage, getSporkNameByID first.nSporkID ≠ "Unknown" →
        getSporkNameByID second.nSporkID ≠ "Unknown" → first.strMessage = second.strMessage →
        first.triple = second.triple) ∧
      ∀ state ∈ Foundation.Run.states SporkState.receive {} messages,
        state.Authentic sporkKey sporkKeyOld signed := by
  intro always
  have authentic := (always [4] [4] signedOnce
    [(.main verifyOnce, ⟨10001, 1, 51561593600, [9]⟩)] (by
      intro message member
      rw [List.mem_singleton.mp member]
      exact ofNetwork_once _)).2 _ (Foundation.Run.foldl_mem_states _ _)
  obtain ⟨-, was⟩ := authentic 10001 ⟨10001, 1, 51561593600, [9]⟩ (by decide +kernel)
  rcases was with ⟨-, same⟩ | ⟨-, same⟩
  · exact absurd same (by decide)
  · exact absurd same (by decide)

end GiantCore
