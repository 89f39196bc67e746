import GiantCore.Masternode.RankOrder

/-! # The payment queue

`GetNextMasternodeInQueueForPayment` sorts the masternodes of a level that may be paid by the time
since their last payment and pays the one with the highest score among the first tenth. The tenth is
that of all enabled masternodes, whatever their level, while the other counts are those of the
level. A level is paid from its own longest unpaid tenth exactly if the masternodes behind that
tenth, up to the tenth of the network, have no higher score (`paysLongestUnpaid_iff`).
-/

namespace GiantCore

open GiantCore.Foundation

/-- What the queue reads besides the node and the masternode list. -/
structure QueueContext where
  payments : CMasternodePayments
  /-- `nHeight` and `nTime` of the blocks of the active chain, from the tip down. -/
  chain : List (Int × Int)
  /-- The hash of a masternode's input and its `sigTime`. -/
  hashSigned : CTxIn → Int → Uint256
  getMasternodeInputAge : CMasternode → Int
  /-- `sigTime + (nMnCount * 2.6 * 60) > GetAdjustedTime()`, in floating point. -/
  isTooNew : Int → Nat → Bool
  /-- `std::sort` by `CompareLastPaid`, from high to low; ties come in any order. -/
  sortByLastPaid : List (Int × CTxIn) → List (Int × CTxIn)

/-- `std::sort` by descending time, with equal times in any order. -/
structure SortsByLastPaid (sort : List (Int × CTxIn) → List (Int × CTxIn)) : Prop where
  perm : ∀ times, (sort times).Perm times
  sorted : ∀ times, (sort times).Pairwise fun first second => second.1 ≤ first.1

def CMasternodeBlockPayees.hasPayeeWithVotes (payees : CMasternodeBlockPayees) (payee : CScript)
    (nVotesReq : Int) : Bool :=
  payees.vecPayments.any fun payment =>
    nVotesReq ≤ payment.nVotes && payment.scriptPubKey == payee

namespace CMasternodePayments

variable (node : NodeContext) (payments : CMasternodePayments) (mn : CMasternode)

/-- `IsScheduled`: the masternode is to be paid in one of the blocks ahead, as many as there are
other masternodes of the level, but at most ten. -/
def isScheduled (nSameLevelMNCount nNotBlockHeight : Int) : Bool :=
  -- the lock is only tried
  match node.lockMain, node.tip with
  | true, some tip =>
      let ahead := min 10 (nSameLevelMNCount - 1)
      (List.range ahead.toNat).any fun i =>
        let h := tip.nHeight + 10 - ahead + i
        h != nNotBlockHeight &&
          payments.getBlockPayee h (mn.getLevel node) == some (mn.payee node)
  | _, _ => false

/-- The loop of `GetLastPaid` down the chain, for as many blocks as are left. -/
def lastPaidFrom (mnpayee : CScript) (nOffset : Int) : Nat → List (Int × Int) → Int
  | 0, _ => 0
  | _, [] => 0
  | left + 1, (nHeight, nTime) :: rest =>
      if nHeight ≤ 0 then 0
      else if payments.mapMasternodeBlocks[nHeight]?.any (·.hasPayeeWithVotes mnpayee 2) then
        nTime + nOffset
      else lastPaidFrom mnpayee nOffset left rest

end CMasternodePayments

namespace CMasternodeMan

variable (node : NodeContext) (queue : QueueContext) (mnodeman : CMasternodeMan)

/-- `GetLastPaid`, 0 if there is no payment among the last blocks. -/
def getLastPaid (mn : CMasternode) : Int :=
  let nOffset := (queue.hashSigned mn.vin mn.sigTime).getCompact % 150
  let nMnCount := (mnodeman.countEnabled node Level.unknown.toInt (-1)).2 * 5 / 4
  queue.payments.lastPaidFrom (mn.payee node) nOffset nMnCount queue.chain

/-- `SecondsSincePayment`: after 30 days the order is that of the hashes. -/
def secondsSincePayment (mn : CMasternode) : Int :=
  let sec := node.adjustedTime - mnodeman.getLastPaid node queue mn
  let month := 60 * 60 * 24 * 30
  if sec < month then sec else month + (queue.hashSigned mn.vin mn.sigTime).getCompact

variable (nBlockHeight level : Int) (fFilterSigTime : Bool)

/-- The tests that a masternode passes before it is put into the queue. -/
def mayBePaid (nMnCount : Nat) (mn : CMasternode) : Bool :=
  mn.isEnabled && (mn.getLevel node).toInt == level &&
    !decide (mn.protocolVersion < node.activeProtocol) &&
    !queue.payments.isScheduled node mn nMnCount nBlockHeight &&
    -- it's too new, wait for a cycle
    !(fFilterSigTime && queue.isTooNew mn.sigTime nMnCount) &&
    !decide (queue.getMasternodeInputAge mn < nMnCount)

def vecMasternodeLastPaid (nMnCount : Nat) : List (Int × CTxIn) :=
  (mnodeman.vMasternodes.filter
    (mayBePaid node queue nBlockHeight level fFilterSigTime nMnCount)).map fun mn =>
      (mnodeman.secondsSincePayment node queue mn, mn.vin)

/-- The score as a number. -/
def scoreAt (mn : CMasternode) : Nat := (mn.calculateScore node (nBlockHeight - 100)).toNat

/-- The loop over the oldest nodes. -/
def bestOfTenth (nTenthNetwork : Nat) : Nat → Nat × Option CMasternode → List (Int × CTxIn) →
    Option CMasternode
  | _, best, [] => best.2
  | nCountTenth, best, s :: rest =>
      match mnodeman.find s.2 with
      | none => best.2
      | some pmn =>
          let n := scoreAt node nBlockHeight pmn
          let best := if n > best.1 then (n, some pmn) else best
          if nCountTenth + 1 ≥ nTenthNetwork then best.2
          else bestOfTenth nTenthNetwork (nCountTenth + 1) best rest

/-- The filter for new masternodes, after the retry: when too few are left, recently restarted
nodes are not penalized. -/
def filterInForce (nMnCount : Nat) : Bool :=
  let vec := mnodeman.vecMasternodeLastPaid node queue nBlockHeight level fFilterSigTime nMnCount
  if fFilterSigTime && vec.length < nMnCount / 3 then false else fFilterSigTime

/-- `GetNextMasternodeInQueueForPayment`, with the number of masternodes in the queue. -/
def getNextMasternodeInQueueForPayment : CMasternodeMan × Option CMasternode × Nat :=
  let counted := mnodeman.countEnabled node level (-1)
  let checked := counted.1
  let nMnCount := counted.2
  let filter := checked.filterInForce node queue nBlockHeight level fFilterSigTime nMnCount
  let vec := checked.vecMasternodeLastPaid node queue nBlockHeight level filter nMnCount
  let nTenthNetwork := (checked.countEnabled node Level.unknown.toInt (-1)).2 / 10
  (checked,
    checked.bestOfTenth node nBlockHeight nTenthNetwork 0 (0, none) (queue.sortByLastPaid vec),
    vec.length)

/-! ## What the queue should do -/

/-- `CountEnabled` of a level. -/
def levelCount : Nat := (mnodeman.countEnabled node level (-1)).2

/-- The masternodes in the queue, from the longest unpaid. -/
def queued : List CMasternode :=
  let checked := mnodeman.checkAll node
  let nMnCount := mnodeman.levelCount node level
  let filter := checked.filterInForce node queue nBlockHeight level fFilterSigTime nMnCount
  (queue.sortByLastPaid
    (checked.vecMasternodeLastPaid node queue nBlockHeight level filter nMnCount)).filterMap
      fun s => checked.find s.2

/-- A tenth, but at least one. -/
def tenth (count : Nat) : Nat := max 1 (count / 10)

/-- The longest unpaid tenth of the level. -/
def longestUnpaid : List CMasternode :=
  (mnodeman.queued node queue nBlockHeight level fFilterSigTime).take
    (tenth (mnodeman.levelCount node level))

/-- **The queue pays the longest unpaid**: the highest score among a tenth of the level. -/
def PaysLongestUnpaid : Prop :=
  ∃ mn, (mnodeman.getNextMasternodeInQueueForPayment node queue nBlockHeight level
      fFilterSigTime).2.1 = some mn ∧ (mn.getLevel node).toInt = level ∧
    mn ∈ mnodeman.longestUnpaid node queue nBlockHeight level fFilterSigTime ∧
    ∀ other ∈ mnodeman.longestUnpaid node queue nBlockHeight level fFilterSigTime,
      scoreAt node nBlockHeight other ≤ scoreAt node nBlockHeight mn

/-- The masternodes that may be paid, new or not. -/
def Payable (mn : CMasternode) : Prop :=
  mn ∈ (mnodeman.checkAll node).vMasternodes ∧
    mayBePaid node queue nBlockHeight level false (mnodeman.levelCount node level) mn = true

/-- The filter for new masternodes leaves nobody, at a level too small for the retry. -/
def AllTooNew : Prop :=
  fFilterSigTime = true ∧ mnodeman.levelCount node level < 3 ∧
    ∀ mn, mnodeman.Payable node queue nBlockHeight level mn →
      queue.isTooNew mn.sigTime (mnodeman.levelCount node level) = true

/-- No masternode behind the tenth of the level, but within that of the network, has a higher score
than all in the tenth of the level. -/
def NoneBehind : Prop :=
  ∀ later ∈ ((mnodeman.queued node queue nBlockHeight level fFilterSigTime).take
      (tenth (mnodeman.levelCount node Level.unknown.toInt))).drop
        (tenth (mnodeman.levelCount node level)),
    ∃ earlier ∈ mnodeman.longestUnpaid node queue nBlockHeight level fFilterSigTime,
      scoreAt node nBlockHeight later ≤ scoreAt node nBlockHeight earlier

variable {node queue mnodeman nBlockHeight level fFilterSigTime}

/-! ## The loop over the oldest nodes -/

/-- The loop keeps the first of the highest scores among as many nodes as it looks at. -/
theorem bestOfTenth_eq {nTenthNetwork nCountTenth : Nat} {best : Nat × Option CMasternode}
    {times : List (Int × CTxIn)} (known : ∀ s ∈ times, (mnodeman.find s.2).isSome = true) :
    mnodeman.bestOfTenth node nBlockHeight nTenthNetwork nCountTenth best times =
      (RunningMax.scan (fun _ => true) (scoreAt node nBlockHeight) best
        ((times.filterMap fun s => mnodeman.find s.2).take
          (max 1 (nTenthNetwork - nCountTenth)))).2 := by
  induction times generalizing nCountTenth best with
  | nil =>
      rw [List.filterMap_nil, List.take_nil]
      rfl
  | cons s rest ih =>
      rw [List.forall_mem_cons] at known
      obtain ⟨pmn, found⟩ := Option.isSome_iff_exists.mp known.1
      have looks : max 1 (nTenthNetwork - nCountTenth) =
          max 1 (nTenthNetwork - nCountTenth) - 1 + 1 := by
        omega
      rw [bestOfTenth, found,
        List.filterMap_cons_some (f := fun s : Int × CTxIn => mnodeman.find s.2) found, looks,
        List.take_succ_cons, RunningMax.scan]
      simp only [Bool.and_true, decide_eq_true_eq]
      split
      · rename_i last
        have only : max 1 (nTenthNetwork - nCountTenth) - 1 = 0 := by omega
        rw [only, List.take_zero]
        split
        · rfl
        · rfl
      · rename_i more
        have fewer : max 1 (nTenthNetwork - nCountTenth) - 1 =
            max 1 (nTenthNetwork - (nCountTenth + 1)) := by
          omega
        rw [ih known.2, fewer]
        split
        · rfl
        · rfl

/-! ## The queue -/

theorem tenth_mono {few many : Nat} (more : few ≤ many) : tenth few ≤ tenth many := by
  unfold tenth
  omega

/-- Those of a level are not more than all. -/
theorem levelCount_le :
    mnodeman.levelCount node level ≤ mnodeman.levelCount node Level.unknown.toInt := by
  apply List.countP_mono_left
  intro mn _ counted
  rw [Bool.and_eq_true] at counted ⊢
  exact ⟨rfl, counted.2⟩

/-- The filter for new masternodes only takes masternodes away. -/
theorem mayBePaid_iff {nMnCount : Nat} {mn : CMasternode} :
    mayBePaid node queue nBlockHeight level fFilterSigTime nMnCount mn = true ↔
      mayBePaid node queue nBlockHeight level false nMnCount mn = true ∧
        ¬ (fFilterSigTime = true ∧ queue.isTooNew mn.sigTime nMnCount = true) := by
  unfold mayBePaid
  cases fFilterSigTime <;> cases queue.isTooNew mn.sigTime nMnCount <;> simp

/-- Each collateral is that of one masternode, as `Add` checks. -/
def Distinct (mnodeman : CMasternodeMan) : Prop :=
  (mnodeman.vMasternodes.map fun mn => mn.vin.prevout).Nodup

instance (mnodeman : CMasternodeMan) : Decidable mnodeman.Distinct :=
  inferInstanceAs (Decidable (mnodeman.vMasternodes.map fun mn => mn.vin.prevout).Nodup)

theorem Distinct.checkAll (distinct : mnodeman.Distinct) : (mnodeman.checkAll node).Distinct := by
  have same : (fun mn : CMasternode => mn.vin.prevout) ∘ CMasternode.check node =
      fun mn => mn.vin.prevout := by
    funext mn
    rw [Function.comp_apply, CMasternode.vin_check]
  rw [Distinct, CMasternodeMan.checkAll, List.map_map, same]
  exact distinct

/-- A masternode is found by its collateral. -/
theorem Distinct.find (distinct : mnodeman.Distinct) {mn : CMasternode}
    (member : mn ∈ mnodeman.vMasternodes) : mnodeman.find mn.vin = some mn := by
  cases found : mnodeman.find mn.vin with
  | none =>
      have different := List.find?_eq_none.mp found mn member
      rw [beq_self_eq_true] at different
      exact absurd rfl different
  | some other =>
      have same := List.find?_some found
      rw [List.inj_on_of_nodup_map distinct (List.mem_of_find?_eq_some found) member
        (eq_of_beq same)]

section

variable (sorts : SortsByLastPaid queue.sortByLastPaid) (distinct : mnodeman.Distinct)
  {filter : Bool} {nMnCount : Nat}

include distinct in
theorem filterMap_find {mns : List CMasternode} (inside : ∀ mn ∈ mns, mn ∈ mnodeman.vMasternodes)
    (time : CMasternode → Int) :
    (mns.map fun mn => (time mn, mn.vin)).filterMap (fun s => mnodeman.find s.2) = mns := by
  rw [List.filterMap_map, List.filterMap_eq_map_iff_forall_eq_some.mpr, List.map_id]
  intro mn member
  exact distinct.find (inside mn member)

include sorts distinct in
/-- Every entry of the sorted queue is about a masternode. -/
theorem find_of_mem {s : Int × CTxIn} (member : s ∈ queue.sortByLastPaid
      (mnodeman.vecMasternodeLastPaid node queue nBlockHeight level filter nMnCount)) :
    ∃ mn, mnodeman.find s.2 = some mn ∧ mnodeman.secondsSincePayment node queue mn = s.1 := by
  obtain ⟨mn, inside, rfl⟩ := List.mem_map.mp ((sorts.perm _).mem_iff.mp member)
  exact ⟨mn, distinct.find (List.mem_filter.mp inside).1, rfl⟩

end

section

variable (sorts : SortsByLastPaid queue.sortByLastPaid) (distinct : mnodeman.Distinct)

/-- The filter for new masternodes that is in force. -/
abbrev inForce (node : NodeContext) (queue : QueueContext) (mnodeman : CMasternodeMan)
    (nBlockHeight level : Int) (fFilterSigTime : Bool) : Bool :=
  (mnodeman.checkAll node).filterInForce node queue nBlockHeight level fFilterSigTime
    (mnodeman.levelCount node level)

include sorts distinct in
/-- The queue holds the masternodes that pass the tests. -/
theorem queued_perm : (mnodeman.queued node queue nBlockHeight level fFilterSigTime).Perm
    ((mnodeman.checkAll node).vMasternodes.filter (mayBePaid node queue nBlockHeight level
      (inForce node queue mnodeman nBlockHeight level fFilterSigTime)
      (mnodeman.levelCount node level))) := by
  have unsorted := (sorts.perm ((mnodeman.checkAll node).vecMasternodeLastPaid node queue
    nBlockHeight level (inForce node queue mnodeman nBlockHeight level fFilterSigTime)
    (mnodeman.levelCount node level))).filterMap fun s => (mnodeman.checkAll node).find s.2
  rw [vecMasternodeLastPaid, filterMap_find distinct.checkAll] at unsorted
  · exact unsorted
  · intro mn member
    exact (List.mem_filter.mp member).1

include sorts distinct in
include sorts distinct in
theorem getNextMasternodeInQueueForPayment_eq :
    (mnodeman.getNextMasternodeInQueueForPayment node queue nBlockHeight level
      fFilterSigTime).2.1 =
      (RunningMax.scan (fun _ => true) (scoreAt node nBlockHeight) (0, none)
        ((mnodeman.queued node queue nBlockHeight level fFilterSigTime).take
          (tenth (mnodeman.levelCount node Level.unknown.toInt)))).2 := by
  simp only [getNextMasternodeInQueueForPayment, fst_countEnabled, countEnabled_checkAll]
  rw [bestOfTenth_eq]
  · rfl
  · intro s member
    obtain ⟨mn, found, -⟩ := find_of_mem sorts distinct.checkAll member
    rw [found]
    rfl

include sorts distinct in
theorem payable_of_queued {mn : CMasternode}
    (member : mn ∈ mnodeman.queued node queue nBlockHeight level fFilterSigTime) :
    mnodeman.Payable node queue nBlockHeight level mn := by
  have passes := List.mem_filter.mp ((queued_perm sorts distinct).mem_iff.mp member)
  exact ⟨passes.1, (mayBePaid_iff.mp passes.2).1⟩

/-- What is looked at is the tenth of the level and what is behind it. -/
theorem take_queued : (mnodeman.queued node queue nBlockHeight level fFilterSigTime).take
    (tenth (mnodeman.levelCount node Level.unknown.toInt)) =
      mnodeman.longestUnpaid node queue nBlockHeight level fFilterSigTime ++
        ((mnodeman.queued node queue nBlockHeight level fFilterSigTime).take
          (tenth (mnodeman.levelCount node Level.unknown.toInt))).drop
            (tenth (mnodeman.levelCount node level)) := by
  have front := @List.take_take _ (tenth (mnodeman.levelCount node level))
    (tenth (mnodeman.levelCount node Level.unknown.toInt))
    (mnodeman.queued node queue nBlockHeight level fFilterSigTime)
  rw [min_eq_left (tenth_mono levelCount_le)] at front
  rw [longestUnpaid, ← front, List.take_append_drop]

/-- The longest unpaid is in the tenth of the level, which is not empty. -/
theorem exists_longestUnpaid
    (nonempty : mnodeman.queued node queue nBlockHeight level fFilterSigTime ≠ []) :
    ∃ first, first ∈ mnodeman.longestUnpaid node queue nBlockHeight level fFilterSigTime := by
  obtain ⟨first, rest, shape⟩ := List.exists_cons_of_ne_nil nonempty
  have room : tenth (mnodeman.levelCount node level) =
      tenth (mnodeman.levelCount node level) - 1 + 1 := by
    unfold tenth
    omega
  refine ⟨first, ?_⟩
  rw [longestUnpaid, shape, room, List.take_succ_cons]
  exact List.mem_cons_self

theorem level_of_payable {mn : CMasternode}
    (payable : mnodeman.Payable node queue nBlockHeight level mn) :
    (mn.getLevel node).toInt = level := by
  have passes := payable.2
  simp only [mayBePaid, Bool.and_eq_true, beq_iff_eq] at passes
  exact passes.1.1.1.1.2

include sorts distinct in
/-- The queue is empty only if the filter for new masternodes leaves nobody. -/
theorem queued_eq_nil_iff (some : ∃ mn, mnodeman.Payable node queue nBlockHeight level mn) :
    mnodeman.queued node queue nBlockHeight level fFilterSigTime = [] ↔
      mnodeman.AllTooNew node queue nBlockHeight level fFilterSigTime := by
  have empty : mnodeman.queued node queue nBlockHeight level fFilterSigTime = [] ↔
      ∀ mn, mnodeman.Payable node queue nBlockHeight level mn →
        inForce node queue mnodeman nBlockHeight level fFilterSigTime = true ∧
          queue.isTooNew mn.sigTime (mnodeman.levelCount node level) = true := by
    rw [← List.length_eq_zero_iff, (queued_perm sorts distinct).length_eq,
      List.length_eq_zero_iff, List.filter_eq_nil_iff]
    constructor
    · intro none mn payable
      by_contra old
      exact none mn payable.1 (mayBePaid_iff.mpr ⟨payable.2, old⟩)
    · intro new mn member passes
      obtain ⟨paid, old⟩ := mayBePaid_iff.mp passes
      exact old (new mn ⟨member, paid⟩)
  rw [empty]
  constructor
  · intro new
    obtain ⟨mn, payable⟩ := some
    have force := (new mn payable).1
    simp only [inForce, filterInForce] at force
    split at force
    · cases force
    · rename_i enough
      subst force
      refine ⟨rfl, ?_, fun other passes => (new other passes).2⟩
      have nobody : (mnodeman.checkAll node).vecMasternodeLastPaid node queue nBlockHeight level
          true (mnodeman.levelCount node level) = [] := by
        rw [vecMasternodeLastPaid, List.map_eq_nil_iff, List.filter_eq_nil_iff]
        intro other member passes
        obtain ⟨paid, old⟩ := mayBePaid_iff.mp passes
        exact old ⟨rfl, (new other ⟨member, paid⟩).2⟩
      simp only [nobody, List.length_nil, Bool.true_and, decide_eq_true_eq] at enough
      omega
  · rintro ⟨rfl, small, new⟩ mn payable
    refine ⟨?_, new mn payable⟩
    have none : mnodeman.levelCount node level / 3 = 0 := by omega
    simp only [inForce, filterInForce, none, Nat.not_lt_zero, decide_false, Bool.and_false,
      Bool.false_eq_true, ↓reduceIte]

end

end CMasternodeMan

open CMasternodeMan in
/-- **The highest score among the longest unpaid tenth of the level is paid**, if and only if the
masternodes that may be paid are not all too new and none behind that tenth, within the tenth of the
network, has a higher score. -/
theorem paysLongestUnpaid_iff (node : NodeContext) (queue : QueueContext)
    (mnodeman : CMasternodeMan) (nBlockHeight level : Int) (fFilterSigTime : Bool)
    (sorts : SortsByLastPaid queue.sortByLastPaid) (distinct : mnodeman.Distinct)
    (positive : ∀ mn, mnodeman.Payable node queue nBlockHeight level mn →
      0 < scoreAt node nBlockHeight mn)
    (some : ∃ mn, mnodeman.Payable node queue nBlockHeight level mn) :
    mnodeman.PaysLongestUnpaid node queue nBlockHeight level fFilterSigTime ↔
      ¬ mnodeman.AllTooNew node queue nBlockHeight level fFilterSigTime ∧
        mnodeman.NoneBehind node queue nBlockHeight level fFilterSigTime := by
  rw [← queued_eq_nil_iff sorts distinct some]
  unfold PaysLongestUnpaid
  rw [getNextMasternodeInQueueForPayment_eq sorts distinct, take_queued]
  constructor
  · rintro ⟨mn, found, -, oldest, -⟩
    refine ⟨?_, ?_⟩
    · intro empty
      rw [longestUnpaid, empty, List.take_nil] at oldest
      exact absurd oldest List.not_mem_nil
    · intro later behind
      have highest := (RunningMax.of_scan_eq_some (fun _ => true) _ found).2
      refine ⟨mn, oldest, ?_⟩
      rw [← highest]
      exact RunningMax.score_le_scan _ _ _ (List.mem_append_right _ behind) rfl
  · rintro ⟨nonempty, behind⟩
    have paid {mn : CMasternode}
        (oldest : mn ∈ mnodeman.longestUnpaid node queue nBlockHeight level fFilterSigTime) :=
      payable_of_queued sorts distinct (List.mem_of_mem_take oldest)
    obtain ⟨first, front⟩ := exists_longestUnpaid nonempty
    obtain ⟨best, found⟩ := RunningMax.exists_scan_eq_some (fun _ => true)
      (scoreAt node nBlockHeight) front rfl (positive first (paid front))
    obtain ⟨oldest, highest⟩ := RunningMax.of_scan_eq_some (fun _ => true) _ found
    refine ⟨best, ?_, level_of_payable (paid oldest), oldest, ?_⟩
    · rw [RunningMax.scan_append, RunningMax.scan_of_le]
      · exact found
      · intro later within _
        obtain ⟨earlier, member, lower⟩ := behind later within
        exact lower.trans (RunningMax.score_le_scan _ _ _ member rfl)
    · intro other member
      rw [← highest]
      exact RunningMax.score_le_scan _ _ _ member rfl

/-- Eighteen masternodes and two supernodes. -/
def twoSupernodes : CMasternodeMan :=
  ⟨(List.range 20).map fun i =>
    CMasternode.enabledNode (i + 1) (if i < 18 then 5000 * COIN else 20000 * COIN)⟩

/-- A queue for which a supernode was paid in the block before the tip, and no other. -/
def queuePaying (index : Nat) : QueueContext where
  payments :=
    { mapMasternodeBlocks := (∅ : Std.ExtTreeMap Int CMasternodeBlockPayees).insert 399999
        ⟨399999, [⟨[0x76, UInt8.ofNat index], 2, .supernode⟩]⟩ }
  chain := [(400000, 1599999940), (399999, 1599999880)]
  hashSigned vin _ := vin.prevout.hash
  getMasternodeInputAge _ := 1000
  isTooNew sigTime nMnCount := sigTime + nMnCount * 156 > 1600000000
  sortByLastPaid := insertionSortByScore

theorem sortsByLastPaid_queuePaying (index : Nat) :
    SortsByLastPaid (queuePaying index).sortByLastPaid :=
  ⟨sortsByScore_insertionSort.perm, sortsByScore_insertionSort.sorted⟩

/-- All twenty masternodes may be compared by their scores. -/
theorem positive_twoSupernodes (index : Nat) (mn : CMasternode)
    (payable : twoSupernodes.Payable (NodeContext.mainNode 400000) (queuePaying index) 400010 2
      mn) :
    0 < CMasternodeMan.scoreAt (NodeContext.mainNode 400000) 400010 mn := by
  have all : ∀ mn ∈ (twoSupernodes.checkAll (NodeContext.mainNode 400000)).vMasternodes,
      0 < CMasternodeMan.scoreAt (NodeContext.mainNode 400000) 400010 mn := by
    decide +kernel
  exact all mn payable.1

/-- The supernode with the higher score was not paid, and is. -/
theorem paysLongestUnpaid_twoSupernodes :
    twoSupernodes.PaysLongestUnpaid (NodeContext.mainNode 400000) (queuePaying 19) 400010 2
      true := by
  have payable : twoSupernodes.Payable (NodeContext.mainNode 400000) (queuePaying 19) 400010 2
      (CMasternode.enabledNode 20 (20000 * COIN)) :=
    ⟨by decide +kernel, by decide +kernel⟩
  refine (paysLongestUnpaid_iff _ _ _ _ _ _ (sortsByLastPaid_queuePaying 19) (by decide +kernel)
    (positive_twoSupernodes 19) ⟨_, payable⟩).mpr ⟨?_, ?_⟩
  · intro tooNew
    exact absurd (tooNew.2.2 _ payable) (by decide +kernel)
  · unfold CMasternodeMan.NoneBehind
    decide +kernel

/-- **The supernode that was just paid is paid again**: it has the higher score, and two supernodes
are looked at, a tenth of all masternodes. -/
theorem not_paysLongestUnpaid :
    ¬ ∀ (node : NodeContext) (queue : QueueContext) (mnodeman : CMasternodeMan)
      (nBlockHeight level : Int) (fFilterSigTime : Bool),
        SortsByLastPaid queue.sortByLastPaid → mnodeman.Distinct →
        (∀ mn, mnodeman.Payable node queue nBlockHeight level mn →
          0 < CMasternodeMan.scoreAt node nBlockHeight mn) →
        (∃ mn, mnodeman.Payable node queue nBlockHeight level mn) →
          mnodeman.PaysLongestUnpaid node queue nBlockHeight level fFilterSigTime := by
  intro always
  obtain ⟨mn, found, -, oldest, -⟩ := always (NodeContext.mainNode 400000) (queuePaying 20)
    twoSupernodes 400010 2 true (sortsByLastPaid_queuePaying 20) (by decide +kernel)
    (positive_twoSupernodes 20)
    ⟨CMasternode.enabledNode 19 (20000 * COIN), by decide +kernel, by decide +kernel⟩
  have again : (twoSupernodes.getNextMasternodeInQueueForPayment (NodeContext.mainNode 400000)
      (queuePaying 20) 400010 2 true).2.1 = some (CMasternode.enabledNode 20 (20000 * COIN)) := by
    decide +kernel
  rw [found] at again
  cases again
  exact absurd oldest (by decide +kernel)

end GiantCore
