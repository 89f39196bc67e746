import GiantCore.Masternode.Votes

/-! # Paying the voted masternodes

What a block owes to masternodes: the outputs that the producer appends for the
levels of its tip (`CMasternodePayments::FillBlockPayee`), and the validator's
demand that every level with enough votes is paid
(`CMasternodeBlockPayees::IsTransactionValid`).

The two do not look at the same thing. The producer pays the levels that are
active at the tip, a share of the subsidy of the tip's height; the validator
wants the levels of the votes paid, a share of the subsidy of the new height.
`fillBlockPayee_valid_iff` says when the produced outputs are still enough.
-/

namespace GiantCore

/-- `MNPAYMENTS_SIGNATURES_REQUIRED`. -/
def mnpaymentsSignaturesRequired : Int := 6

/-- The payee has the votes that make its payment an obligation. -/
def CMasternodePayee.isElected (payee : CMasternodePayee) : Bool :=
  mnpaymentsSignaturesRequired ≤ payee.nVotes

namespace CMasternodeBlockPayees

/-- The loop of `IsTransactionValid` that collects the levels with an elected payee
and their highest vote counts. -/
def maxSignatures : List CMasternodePayee → Std.ExtTreeMap Int Int → Std.ExtTreeMap Int Int
  | [], signatures => signatures
  | payee :: rest, signatures =>
      if payee.nVotes < mnpaymentsSignaturesRequired then maxSignatures rest signatures
      else
        match signatures[payee.level.toInt]? with
        | none => maxSignatures rest (signatures.insert payee.level.toInt payee.nVotes)
        | some nVotes =>
            if payee.nVotes ≥ nVotes then
              maxSignatures rest (signatures.insert payee.level.toInt payee.nVotes)
            else maxSignatures rest signatures

/-- Some output pays the payee what its level gets of the reward. -/
def isPaid (node : NodeContext) (nReward : CAmount) (vout : List CTxOut)
    (payee : CMasternodePayee) : Bool :=
  vout.any fun out => payee.scriptPubKey == out.scriptPubKey &&
    decide (node.getMasternodePayment payee.level nReward ≤ out.nValue)

/-- The loop of `IsTransactionValid` that strikes out the levels that are paid. -/
def checkPayees (node : NodeContext) (nReward : CAmount) (vout : List CTxOut) :
    List CMasternodePayee → Std.ExtTreeMap Int Int → Bool
  | [], _ => false
  | payee :: rest, signatures =>
      if payee.nVotes < mnpaymentsSignaturesRequired then
        checkPayees node nReward vout rest signatures
      else if isPaid node nReward vout payee then
        let signatures := signatures.erase payee.level.toInt
        if signatures.isEmpty then true else checkPayees node nReward vout rest signatures
      else checkPayees node nReward vout rest signatures

/-- `IsTransactionValid` of the payees of a height. Without an elected payee every
transaction will do. -/
def isTransactionValid (node : NodeContext) (payees : CMasternodeBlockPayees)
    (vout : List CTxOut) : Bool :=
  let signatures := maxSignatures payees.vecPayments ∅
  if signatures.isEmpty then true
  else checkPayees node (node.params.getBlockValue payees.nBlockHeight) vout payees.vecPayments
    signatures

end CMasternodeBlockPayees

namespace CMasternodePayments

variable (node : NodeContext) (payments : CMasternodePayments)

/-- `IsTransactionValid`. -/
def isTransactionValid (vout : List CTxOut) (nBlockHeight : Int) : Bool :=
  match payments.mapMasternodeBlocks[nBlockHeight]? with
  | none => true
  | some payees => payees.isTransactionValid node vout

/-- What `FillBlockPayee` works on: the masternode list, the outputs and the reward
so far. -/
structure Filling where
  mnodeman : CMasternodeMan
  vout : List CTxOut
  nReward : CAmount := 0

/-- Pay one level: the masternode with the votes, or else the one with the score. -/
def fillLevel (tip : CBlockIndex) (filling : Filling) (level : Level) : Filling :=
  let (mnodeman, found) :=
    match payments.getBlockPayee (tip.nHeight + 1) level with
    | some payee => (filling.mnodeman, some payee)
    | none =>
        let (mnodeman, winningNode) :=
          filling.mnodeman.getCurrentMasterNode node level.toInt 0 0
        (mnodeman, winningNode.map (CMasternode.payee node))
  match found with
  | none => { filling with mnodeman }
  | some payee =>
      let masternodePayment :=
        node.getMasternodePayment level (node.params.getBlockValue tip.nHeight)
      if masternodePayment = 0 then { filling with mnodeman }
      else
        { mnodeman
          vout := filling.vout ++ [{ nValue := masternodePayment, scriptPubKey := payee }]
          nReward := filling.nReward + masternodePayment }

/-- `FillBlockPayee`: pay the levels of the tip. If that pays nothing, deprecated
masternodes get the reward while there are any. -/
def fillBlockPayee (vout : List CTxOut) (mnodeman : CMasternodeMan) : Filling :=
  match node.tip with
  | none => { mnodeman, vout }
  | some tip =>
      let filling :=
        (node.levels node.height).foldl (payments.fillLevel node tip) { mnodeman, vout }
      if filling.nReward = 0 ∧ 0 < node.params.deprecatedCollateralPrice tip.nHeight then
        payments.fillLevel node tip filling .deprecated
      else filling

end CMasternodePayments

/-! ## What the validator demands -/

/-- The loops of the validator skip the payees that are not elected. -/
theorem CMasternodePayee.isElected_eq (payee : CMasternodePayee) :
    payee.isElected = !decide (payee.nVotes < mnpaymentsSignaturesRequired) := by
  rw [isElected, ← decide_not, decide_eq_decide, not_lt]

namespace CMasternodeBlockPayees

variable (node : NodeContext)

theorem mem_maxSignatures (payees : List CMasternodePayee) (signatures : Std.ExtTreeMap Int Int)
    (level : Int) :
    level ∈ maxSignatures payees signatures ↔
      level ∈ signatures ∨
        ∃ payee ∈ payees, payee.isElected = true ∧ payee.level.toInt = level := by
  induction payees generalizing signatures with
  | nil => simp [maxSignatures]
  | cons payee rest ih =>
      rw [maxSignatures]
      by_cases few : payee.nVotes < mnpaymentsSignaturesRequired
      · have unelected : payee.isElected = false := by simp [payee.isElected_eq, few]
        rw [if_pos few, ih]
        simp [unelected]
      · have elected : payee.isElected = true := by simp [payee.isElected_eq, few]
        rw [if_neg few]
        cases known : signatures[payee.level.toInt]? with
        | none =>
            simp only [ih, Std.ExtTreeMap.mem_insert, List.mem_cons, exists_eq_or_imp, elected,
              true_and, Std.LawfulEqCmp.compare_eq_iff_eq]
            tauto
        | some nVotes =>
            have present : payee.level.toInt ∈ signatures := by
              rw [Std.ExtTreeMap.mem_iff_isSome_getElem?, known]
              rfl
            have absorbed : payee.level.toInt = level → level ∈ signatures := fun same =>
              same ▸ present
            simp only
            split
            · simp only [ih, Std.ExtTreeMap.mem_insert, List.mem_cons, exists_eq_or_imp, elected,
                true_and, Std.LawfulEqCmp.compare_eq_iff_eq]
              tauto
            · simp only [ih, List.mem_cons, exists_eq_or_imp, elected, true_and]
              tauto

theorem isEmpty_eq_false_iff_exists {signatures : Std.ExtTreeMap Int Int} :
    signatures.isEmpty = false ↔ ∃ level, level ∈ signatures := by
  rw [Std.ExtTreeMap.isEmpty_eq_false_iff, Std.ExtTreeMap.eq_empty_iff_forall_not_mem]
  push Not
  rfl

/-- The second loop accepts when every level left has an elected payee that is
paid. -/
theorem checkPayees_iff (nReward : CAmount) (vout : List CTxOut) (payees : List CMasternodePayee)
    (signatures : Std.ExtTreeMap Int Int) (left : signatures.isEmpty = false) :
    checkPayees node nReward vout payees signatures = true ↔
      ∀ level ∈ signatures, ∃ payee ∈ payees, payee.isElected = true ∧
        payee.level.toInt = level ∧ isPaid node nReward vout payee = true := by
  induction payees generalizing signatures with
  | nil =>
      obtain ⟨level, present⟩ := isEmpty_eq_false_iff_exists.mp left
      simp only [checkPayees, Bool.false_eq_true, List.not_mem_nil, false_and, exists_false,
        imp_false, false_iff, not_forall, not_not]
      exact ⟨level, present⟩
  | cons payee rest ih =>
      rw [checkPayees]
      by_cases few : payee.nVotes < mnpaymentsSignaturesRequired
      · have unelected : payee.isElected = false := by simp [payee.isElected_eq, few]
        rw [if_pos few, ih signatures left]
        simp [unelected]
      · have elected : payee.isElected = true := by simp [payee.isElected_eq, few]
        rw [if_neg few]
        by_cases paid : isPaid node nReward vout payee = true
        · rw [if_pos paid]
          -- the payee takes care of its own level, the rest of the list of the others
          have struck : (∀ level ∈ signatures, ∃ other ∈ payee :: rest, other.isElected = true ∧
              other.level.toInt = level ∧ isPaid node nReward vout other = true) ↔
              ∀ level ∈ signatures.erase payee.level.toInt, ∃ other ∈ rest,
                other.isElected = true ∧ other.level.toInt = level ∧
                  isPaid node nReward vout other = true := by
            simp only [Std.ExtTreeMap.mem_erase, ne_eq, Std.LawfulEqCmp.compare_eq_iff_eq,
              List.mem_cons, exists_eq_or_imp, elected, paid, true_and, and_true, and_imp]
            apply forall_congr'
            intro level
            tauto
          rw [struck]
          cases done : (signatures.erase payee.level.toInt).isEmpty with
          | true =>
              rw [Std.ExtTreeMap.isEmpty_iff] at done
              simp [done]
          | false =>
              simp only [done, Bool.false_eq_true, ↓reduceIte]
              exact ih _ done
        · rw [if_neg paid, ih signatures left]
          simp [paid]

/-- **The validator.** A transaction is valid when each level with an elected payee
pays one of its elected payees. -/
theorem isTransactionValid_iff (payees : CMasternodeBlockPayees) (vout : List CTxOut) :
    payees.isTransactionValid node vout = true ↔
      ∀ payee ∈ payees.vecPayments, payee.isElected = true →
        ∃ other ∈ payees.vecPayments, other.isElected = true ∧ other.level = payee.level ∧
          isPaid node (node.params.getBlockValue payees.nBlockHeight) vout other = true := by
  have levels : ∀ level, level ∈ maxSignatures payees.vecPayments ∅ ↔
      ∃ payee ∈ payees.vecPayments, payee.isElected = true ∧ payee.level.toInt = level := by
    intro level
    rw [mem_maxSignatures]
    simp
  unfold isTransactionValid
  cases none : (maxSignatures payees.vecPayments ∅).isEmpty with
  | true =>
      simp only [none, ↓reduceIte, true_iff]
      rw [Std.ExtTreeMap.isEmpty_iff, Std.ExtTreeMap.eq_empty_iff_forall_not_mem] at none
      intro payee member elected
      exact (none _ ((levels _).mpr ⟨payee, member, elected, rfl⟩)).elim
  | false =>
      simp only [none, Bool.false_eq_true, ↓reduceIte, checkPayees_iff node _ _ _ _ none, levels]
      constructor
      · intro accepted payee member elected
        simpa [Level.toInt_inj] using accepted _ ⟨payee, member, elected, rfl⟩
      · rintro accepted _ ⟨payee, member, elected, rfl⟩
        simpa [Level.toInt_inj] using accepted payee member elected

/-- The loop of `GetPayee` returns its start or a payee of the level. -/
theorem bestPayee_mem {level : Level} {payees : List CMasternodePayee}
    {best : Option CMasternodePayee} {chosen : CMasternodePayee}
    (found : bestPayee level best payees = some chosen) :
    best = some chosen ∨ chosen ∈ payees ∧ chosen.level = level := by
  induction payees generalizing best with
  | nil => exact Or.inl found
  | cons payee rest ih =>
      rw [bestPayee] at found
      split at found
      · rcases ih found with start | ⟨member, tier⟩
        · exact Or.inl start
        · exact Or.inr ⟨List.mem_cons_of_mem _ member, tier⟩
      · rename_i tier
        split at found
        · rcases ih found with start | ⟨member, tier⟩
          · cases start
            exact Or.inr ⟨List.mem_cons_self, not_not.mp tier⟩
          · exact Or.inr ⟨List.mem_cons_of_mem _ member, tier⟩
        · rcases ih found with start | ⟨member, tier⟩
          · exact Or.inl start
          · exact Or.inr ⟨List.mem_cons_of_mem _ member, tier⟩

/-- No payee of the level has more votes than the one that is returned. -/
theorem bestPayee_max (level : Level) (payees : List CMasternodePayee)
    (best : Option CMasternodePayee) (payee : CMasternodePayee)
    (candidate : best = some payee ∨ payee ∈ payees ∧ payee.level = level) :
    ∃ chosen, bestPayee level best payees = some chosen ∧ payee.nVotes ≤ chosen.nVotes := by
  induction payees generalizing best payee with
  | nil =>
      rcases candidate with rfl | ⟨member, -⟩
      · exact ⟨payee, rfl, le_refl _⟩
      · cases member
  | cons first rest ih =>
      rw [bestPayee]
      split
      · rename_i other
        refine ih best payee (candidate.imp_right fun both => ⟨?_, both.2⟩)
        rcases List.mem_cons.mp both.1 with rfl | inside
        · exact (other both.2).elim
        · exact inside
      · split
        · rename_i better
          rcases candidate with rfl | ⟨member, tier⟩
          · obtain ⟨chosen, found, more⟩ := ih (some first) first (Or.inl rfl)
            simp only [Option.all_some, decide_eq_true_eq] at better
            exact ⟨chosen, found, by omega⟩
          · rcases List.mem_cons.mp member with rfl | inside
            · exact ih (some payee) payee (Or.inl rfl)
            · exact ih (some first) payee (Or.inr ⟨inside, tier⟩)
        · rename_i worse
          rcases candidate with rfl | ⟨member, tier⟩
          · exact ih (some payee) payee (Or.inl rfl)
          · rcases List.mem_cons.mp member with rfl | inside
            · -- the payee that is passed over has no more votes than the best so far
              cases best with
              | none => simp at worse
              | some top =>
                  obtain ⟨chosen, found, more⟩ := ih (some top) top (Or.inl rfl)
                  simp only [Option.all_some, decide_eq_true_eq, gt_iff_lt, not_lt] at worse
                  exact ⟨chosen, found, by omega⟩
            · exact ih best payee (Or.inr ⟨inside, tier⟩)

/-- A level with an elected payee gets an elected payee. -/
theorem getPayee_of_elected {payees : CMasternodeBlockPayees} {payee : CMasternodePayee}
    (member : payee ∈ payees.vecPayments) (elected : payee.isElected = true) :
    ∃ chosen ∈ payees.vecPayments, chosen.isElected = true ∧ chosen.level = payee.level ∧
      payees.getPayee payee.level = some chosen.scriptPubKey := by
  obtain ⟨chosen, found, more⟩ :=
    bestPayee_max payee.level payees.vecPayments none payee (Or.inr ⟨member, rfl⟩)
  rcases bestPayee_mem found with start | ⟨inside, tier⟩
  · cases start
  · refine ⟨chosen, inside, ?_, tier, by rw [getPayee, found, Option.map_some]⟩
    rw [CMasternodePayee.isElected, decide_eq_true_eq] at elected ⊢
    omega

end CMasternodeBlockPayees

/-! ## What the producer pays -/

namespace CMasternodePayments

variable (node : NodeContext) (payments : CMasternodePayments) (mnodeman : CMasternodeMan)
  (tip : CBlockIndex)

/-- The script that the producer pays for a level. -/
def chosenPayee (level : Level) : Option CScript :=
  match payments.getBlockPayee (tip.nHeight + 1) level with
  | some payee => some payee
  | none =>
      (mnodeman.getCurrentMasterNode node level.toInt 0 0).2.map (CMasternode.payee node)

/-- What a level gets of the subsidy at the tip. -/
def levelPayment (level : Level) : CAmount :=
  node.getMasternodePayment level (node.params.getBlockValue tip.nHeight)

/-- The output of a level, if it has a payee and a payment. -/
def levelOutput (level : Level) : Option CTxOut :=
  if levelPayment node tip level = 0 then none
  else (payments.chosenPayee node mnodeman tip level).map fun payee =>
    { nValue := levelPayment node tip level, scriptPubKey := payee }

/-- The levels that the producer serves: those of the tip, and the deprecated one
if they get nothing. -/
def servedLevels : List Level :=
  node.levels node.height ++
    if (((node.levels node.height).filterMap (payments.levelOutput node mnodeman tip)).map
        CTxOut.nValue).sum = 0 ∧ 0 < node.params.deprecatedCollateralPrice tip.nHeight then
      [.deprecated]
    else []

@[simp] theorem getCurrentMasterNode_checkAll (level nBlockHeight minProtocol : Int) :
    (mnodeman.checkAll node).getCurrentMasterNode node level nBlockHeight minProtocol =
      mnodeman.getCurrentMasterNode node level nBlockHeight minProtocol := by
  simp only [CMasternodeMan.getCurrentMasterNode, CMasternodeMan.checkAll_checkAll]

theorem levelOutput_checkAll :
    payments.levelOutput node (mnodeman.checkAll node) tip =
      payments.levelOutput node mnodeman tip := by
  funext level
  simp only [levelOutput, chosenPayee, getCurrentMasterNode_checkAll]

variable {mnodeman}

/-- Serving a level appends its output, and at most checks the masternodes. -/
theorem fillLevel_spec (filling : Filling) (level : Level) :
    (payments.fillLevel node tip filling level).vout =
        filling.vout ++ (payments.levelOutput node filling.mnodeman tip level).toList ∧
      (payments.fillLevel node tip filling level).nReward = filling.nReward +
        ((payments.levelOutput node filling.mnodeman tip level).toList.map CTxOut.nValue).sum ∧
      payments.levelOutput node (payments.fillLevel node tip filling level).mnodeman tip =
        payments.levelOutput node filling.mnodeman tip := by
  have zero_or : levelPayment node tip level = 0 ∨ levelPayment node tip level ≠ 0 := em _
  unfold fillLevel
  cases voted : payments.getBlockPayee (tip.nHeight + 1) level with
  | some payee =>
      rcases zero_or with zero | pays
      · simp_all [levelPayment, levelOutput]
      · simp_all [levelPayment, levelOutput, chosenPayee]
  | none =>
      have checked : (filling.mnodeman.getCurrentMasterNode node level.toInt 0 0).1 =
          filling.mnodeman.checkAll node := rfl
      cases winner : (filling.mnodeman.getCurrentMasterNode node level.toInt 0 0).2 with
      | none => simp_all [levelOutput, chosenPayee, levelOutput_checkAll]
      | some winningNode =>
          rcases zero_or with zero | pays
          · simp_all [levelPayment, levelOutput, levelOutput_checkAll]
          · simp_all [levelPayment, levelOutput, chosenPayee, levelOutput_checkAll]

/-- Serving levels one after the other appends their outputs. -/
theorem foldl_fillLevel (levels : List Level) (filling : Filling) :
    (levels.foldl (payments.fillLevel node tip) filling).vout = filling.vout ++
        levels.filterMap (payments.levelOutput node filling.mnodeman tip) ∧
      (levels.foldl (payments.fillLevel node tip) filling).nReward = filling.nReward +
        ((levels.filterMap (payments.levelOutput node filling.mnodeman tip)).map
          CTxOut.nValue).sum ∧
      payments.levelOutput node (levels.foldl (payments.fillLevel node tip) filling).mnodeman tip =
        payments.levelOutput node filling.mnodeman tip := by
  induction levels generalizing filling with
  | nil => simp
  | cons level rest ih =>
      obtain ⟨outputs, reward, same⟩ := payments.fillLevel_spec node tip filling level
      obtain ⟨later, total, still⟩ := ih (payments.fillLevel node tip filling level)
      rw [List.foldl_cons]
      refine ⟨?_, ?_, still.trans same⟩
      · rw [later, outputs, same]
        cases here : payments.levelOutput node filling.mnodeman tip level with
        | none => simp [here]
        | some out => simp [here]
      · rw [total, reward, same]
        cases here : payments.levelOutput node filling.mnodeman tip level with
        | none => simp [here]
        | some out =>
            simp only [List.filterMap_cons, here, Option.toList_some, List.map_cons, List.sum_cons,
              List.map_nil, List.sum_nil, Int.add_zero, Int.add_assoc]

/-- **The producer.** The outputs of the levels it serves come after the ones there
are. -/
theorem fillBlockPayee_vout {tip : CBlockIndex} (found : node.tip = some tip) (vout : List CTxOut) :
    (payments.fillBlockPayee node vout mnodeman).vout = vout ++
      (payments.servedLevels node mnodeman tip).filterMap
        (payments.levelOutput node mnodeman tip) := by
  obtain ⟨outputs, reward, same⟩ :=
    payments.foldl_fillLevel node tip (node.levels node.height) { mnodeman, vout }
  obtain ⟨later, -, -⟩ := payments.fillLevel_spec node tip
    ((node.levels node.height).foldl (payments.fillLevel node tip) { mnodeman, vout }) .deprecated
  rw [same, outputs] at later
  simp only [Int.zero_add] at reward
  simp only [fillBlockPayee, found, servedLevels, reward]
  split
  · rw [later, List.filterMap_append, List.append_assoc]
    cases last : payments.levelOutput node mnodeman tip .deprecated with
    | none => simp [last]
    | some out => simp [last]
  · rw [outputs, List.append_nil]

/-- The reward that the producer deducts is what these outputs are worth. -/
theorem fillBlockPayee_nReward {tip : CBlockIndex} (found : node.tip = some tip)
    (vout : List CTxOut) :
    (payments.fillBlockPayee node vout mnodeman).nReward =
      (((payments.servedLevels node mnodeman tip).filterMap
        (payments.levelOutput node mnodeman tip)).map CTxOut.nValue).sum := by
  obtain ⟨-, reward, same⟩ :=
    payments.foldl_fillLevel node tip (node.levels node.height) { mnodeman, vout }
  obtain ⟨-, later, -⟩ := payments.fillLevel_spec node tip
    ((node.levels node.height).foldl (payments.fillLevel node tip) { mnodeman, vout }) .deprecated
  rw [same] at later
  simp only [Int.zero_add] at reward
  simp only [fillBlockPayee, found, servedLevels, reward]
  split
  · rw [later, reward, List.filterMap_append, List.map_append, List.sum_append]
    cases last : payments.levelOutput node mnodeman tip .deprecated with
    | none => simp [last]
    | some out => simp [last]
  · rw [reward, List.append_nil]

/-! ## Agreement -/

variable (mnodeman)

/-- The producer pays an elected payee of the level enough: because it serves the
level and the subsidy allows it, or because the payee of another level it
serves has the same script. -/
def Settles (payees : CMasternodeBlockPayees) (level : Level) : Prop :=
  let required := node.getMasternodePayment level (node.params.getBlockValue payees.nBlockHeight)
  (level ∈ payments.servedLevels node mnodeman tip ∧ levelPayment node tip level ≠ 0 ∧
      required ≤ levelPayment node tip level) ∨
    ∃ payee ∈ payees.vecPayments, (payee.isElected = true ∧ payee.level = level) ∧
      ∃ other ∈ payments.servedLevels node mnodeman tip, other ≠ level ∧
        payments.chosenPayee node mnodeman tip other = some payee.scriptPubKey ∧
        levelPayment node tip other ≠ 0 ∧ required ≤ levelPayment node tip other

instance (payees : CMasternodeBlockPayees) (level : Level) :
    Decidable (payments.Settles node mnodeman tip payees level) := instDecidableOr

/-- Every level with an elected payee is settled. -/
def Agrees : Prop :=
  ∀ payees ∈ payments.mapMasternodeBlocks[tip.nHeight + 1]?, ∀ payee ∈ payees.vecPayments,
    payee.isElected = true → payments.Settles node mnodeman tip payees payee.level

instance : Decidable (payments.Agrees node mnodeman tip) :=
  inferInstanceAs (Decidable (∀ payees ∈ payments.mapMasternodeBlocks[tip.nHeight + 1]?,
    ∀ payee ∈ payees.vecPayments,
      payee.isElected = true → payments.Settles node mnodeman tip payees payee.level))

/-- Which payees the produced outputs pay. -/
theorem isPaid_outputs_iff (nReward : CAmount) (levels : List Level) (payee : CMasternodePayee) :
    CMasternodeBlockPayees.isPaid node nReward
        (levels.filterMap (payments.levelOutput node mnodeman tip)) payee = true ↔
      ∃ level ∈ levels,
        payments.chosenPayee node mnodeman tip level = some payee.scriptPubKey ∧
        levelPayment node tip level ≠ 0 ∧
        node.getMasternodePayment payee.level nReward ≤ levelPayment node tip level := by
  simp only [CMasternodeBlockPayees.isPaid, List.any_eq_true, List.mem_filterMap, levelOutput,
    Bool.and_eq_true, beq_iff_eq, decide_eq_true_eq]
  constructor
  · intro ⟨out, ⟨level, served, output⟩, script, enough⟩
    split at output
    · cases output
    · rename_i pays
      obtain ⟨chosen, choice, rfl⟩ := Option.map_eq_some_iff.mp output
      exact ⟨level, served, by rw [choice, script], pays, enough⟩
  · intro ⟨level, served, choice, pays, enough⟩
    exact ⟨_, ⟨level, served, by rw [if_neg pays, choice, Option.map_some]⟩, rfl, enough⟩

/-- The produced outputs pay an elected payee of the level exactly when they
settle it. -/
theorem settles_iff {payees : CMasternodeBlockPayees} {payee : CMasternodePayee}
    (stored : payments.mapMasternodeBlocks[tip.nHeight + 1]? = some payees)
    (member : payee ∈ payees.vecPayments) (elected : payee.isElected = true) :
    payments.Settles node mnodeman tip payees payee.level ↔
      ∃ other ∈ payees.vecPayments, other.isElected = true ∧ other.level = payee.level ∧
        CMasternodeBlockPayees.isPaid node (node.params.getBlockValue payees.nBlockHeight)
          ((payments.servedLevels node mnodeman tip).filterMap
            (payments.levelOutput node mnodeman tip)) other = true := by
  simp only [isPaid_outputs_iff, Settles]
  constructor
  · rintro (⟨served, pays, enough⟩ | ⟨other, inside, ⟨vote, tier⟩, level, served, -, choice⟩)
    · -- the producer takes the payee with the most votes, which is elected too
      obtain ⟨chosen, inside, vote, tier, found⟩ :=
        CMasternodeBlockPayees.getPayee_of_elected member elected
      refine ⟨chosen, inside, vote, tier, payee.level, served, ?_, pays, tier.symm ▸ enough⟩
      simp [chosenPayee, getBlockPayee, stored, found]
    · exact ⟨other, inside, vote, tier, level, served, tier.symm ▸ choice⟩
  · intro ⟨other, inside, vote, tier, level, served, choice, pays, enough⟩
    rw [tier] at enough
    by_cases same : level = payee.level
    · exact Or.inl (same ▸ ⟨served, pays, same ▸ enough⟩)
    · exact Or.inr ⟨other, inside, ⟨vote, tier⟩, level, served, same, choice, pays, enough⟩

/-- **Producer and validator.** The outputs that the producer appends for the block
after the tip are valid, whatever outputs there were before, if and only if
they settle every level with an elected payee. -/
theorem fillBlockPayee_valid_iff (found : node.tip = some tip) :
    (∀ vout, payments.isTransactionValid node (payments.fillBlockPayee node vout mnodeman).vout
        (tip.nHeight + 1) = true) ↔
      payments.Agrees node mnodeman tip := by
  cases stored : payments.mapMasternodeBlocks[tip.nHeight + 1]? with
  | none => simp [isTransactionValid, Agrees, stored]
  | some payees =>
      simp only [isTransactionValid, Agrees, stored, Option.mem_some_iff, forall_eq',
        fillBlockPayee_vout node payments found, CMasternodeBlockPayees.isTransactionValid_iff]
      constructor
      · intro valid payee member elected
        rw [settles_iff node payments mnodeman tip stored member elected]
        simpa using valid [] payee member elected
      · intro agrees vout payee member elected
        obtain ⟨other, inside, vote, tier, paid⟩ :=
          (settles_iff node payments mnodeman tip stored member elected).mp
            (agrees payee member elected)
        refine ⟨other, inside, vote, tier, ?_⟩
        simp only [CMasternodeBlockPayees.isPaid, List.any_append, Bool.or_eq_true] at paid ⊢
        exact Or.inr paid

/-- Six votes at a height for a masternode of the first tier. -/
def sixVotes (nBlockHeight : Int) : CMasternodePayments where
  mapMasternodeBlocks := (∅ : Std.ExtTreeMap Int CMasternodeBlockPayees).insert nBlockHeight
    ⟨nBlockHeight, [⟨[0x76, 5], 6, .deprecated⟩]⟩

/-- The block before the subsidy rises to twenty coins. -/
def lastBeforeRise : CBlockIndex := ⟨39999, 39999⟩

theorem fillBlockPayee_valid_sixVotes :
    (sixVotes 40001).isTransactionValid (NodeContext.mainNode 40000)
      ((sixVotes 40001).fillBlockPayee (NodeContext.mainNode 40000) [⟨0, [], -10⟩] ⟨[]⟩).vout
      40001 = true :=
  (fillBlockPayee_valid_iff (NodeContext.mainNode 40000) (sixVotes 40001) ⟨[]⟩ ⟨40000, 40000⟩
    (by decide)).mpr (by decide) _

/-- At a rise of the subsidy the producer pays a share of the old one, and the
validator wants a share of the new one. -/
theorem not_agreement_at_rise :
    ¬ ∀ (node : NodeContext) (payments : CMasternodePayments) (mnodeman : CMasternodeMan)
      (tip : CBlockIndex) (vout : List CTxOut), node.tip = some tip →
      payments.isTransactionValid node (payments.fillBlockPayee node vout mnodeman).vout
        (tip.nHeight + 1) = true := by
  intro agreement
  have valid := agreement (NodeContext.mainNode 39999) (sixVotes 40000) ⟨[]⟩ lastBeforeRise
    [] (by decide)
  exact absurd valid (by decide)

end CMasternodePayments

end GiantCore
