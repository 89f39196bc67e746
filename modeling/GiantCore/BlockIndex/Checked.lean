import GiantCore.BlockIndex.BestChain

/-! # An index that passes the check

`CheckBlockIndex` makes the entries a tree whose levels are the heights. With the active chain in
order, `ActivateBestChain` then ends at the best chain.
-/

namespace GiantCore

open GiantCore.Foundation

namespace IndexTree

variable {tree : IndexTree}

/-- The ancestors are those that the heights count. -/
theorem lineage_eq_path (leveled : tree.Leveled) {hash : Uint256} (known : hash ∈ tree.hashes) :
    tree.lineage hash = tree.path hash := by
  have bound := leveled.length_path_le (fun _ => id) known
  rw [leveled.length_path known] at bound
  exact leveled.climb_eq_path known (by omega)

theorem hasInvalid_iff (leveled : tree.Leveled) {hash : Uint256} (known : hash ∈ tree.hashes) :
    tree.hasInvalid hash = true ↔
      ∃ low ∈ tree.path hash, (tree.entry low).nStatus.failedValid = true := by
  rw [hasInvalid, lineage_eq_path leveled known, List.any_eq_true]

theorem hasMissing_iff (leveled : tree.Leveled) {hash : Uint256} (known : hash ∈ tree.hashes) :
    tree.hasMissing hash = true ↔
      ∃ low ∈ tree.path hash, (tree.entry low).nStatus.haveData = false := by
  rw [hasMissing, lineage_eq_path leveled known, List.any_eq_true]
  simp only [Bool.not_eq_true']

end IndexTree

namespace TreeContext

variable {ctx : TreeContext} {tree : IndexTree} {tip : Uint256}

namespace CheckedTree

variable (checked : ctx.CheckedTree tree tip)

include checked

/-- The ancestors of an entry are it and those of its parent. -/
theorem lineage_child {hash up : Uint256} (known : hash ∈ tree.hashes)
    (parent : tree.parent hash = some up) :
    tree.lineage hash = hash :: tree.lineage up ∧ up ∈ tree.hashes := by
  obtain ⟨all, genesis, member, root⟩ := checked.traversed hash known
  obtain ⟨count, size⟩ := Nat.exists_eq_succ_of_ne_zero (List.length_pos_of_mem known).ne'
  have climbed : tree.lineage hash = hash :: ParentTree.climb tree.parent count up := by
    rw [IndexTree.lineage, size, ParentTree.climb_succ parent]
  have reached : ∃ root ∈ ParentTree.climb tree.parent count up, tree.parent root = none := by
    rw [climbed] at member
    rcases List.mem_cons.mp member with rfl | later
    · rw [parent] at root
      cases root
    · exact ⟨genesis, later, root⟩
  have stable := ParentTree.climb_stable reached (Nat.le_succ count)
  refine ⟨?_, all up ?_⟩
  · rw [climbed, IndexTree.lineage, size, stable]
  · rw [climbed]
    exact List.mem_cons_of_mem _ ParentTree.self_mem_climb

theorem leveled : tree.Leveled where
  root hash known root := by
    have height := (checked.entries hash known).height
    rw [IndexTree.lineage, ParentTree.climb_root root] at height
    exact Nat.succ_injective height
  child hash up known parent := by
    obtain ⟨lineage, upKnown⟩ := checked.lineage_child known parent
    have height := (checked.entries hash known).height
    rw [lineage, List.length_cons, ← (checked.entries up upKnown).height] at height
    exact ⟨upKnown, Nat.succ_injective height⟩

theorem genesis : ctx.hashGenesisBlock ∈ tree.hashes ∧
    tree.parent ctx.hashGenesisBlock = none := by
  obtain ⟨genesis, only⟩ := checked.root
  have member : genesis ∈ tree.hashes.filter fun hash => (tree.parent hash).isNone := by
    rw [only]
    exact List.mem_singleton_self genesis
  obtain ⟨known, root⟩ := List.mem_filter.mp member
  have none := Option.isNone_iff_eq_none.mp root
  rw [← ((checked.entries genesis known).genesis none).1]
  exact ⟨known, none⟩

theorem linked_iff {hash : Uint256} (known : hash ∈ tree.hashes) :
    Linked tree hash ↔ tree.hasMissing hash = false := by
  rw [(checked.entries hash known).missing, beq_eq_false_iff_ne]
  exact Iff.rfl

end CheckedTree

/-- What the containers guarantee by themselves: a map has each key once, the candidates are
entries, `chainActive` is the branch of its tip, and the skip pointers are those of `BuildSkip`. -/
structure Contained (tree : IndexTree) (tip : Uint256) : Prop where
  nodup : tree.hashes.Nodup
  tipKnown : tip ∈ tree.hashes
  candidates : ∀ hash ∈ tree.setBlockIndexCandidates, hash ∈ tree.hashes
  mirrors : tree.Mirrors tip
  skips : tree.SkipsBuilt

/-- **The active chain is in order:** each block has its data, is not marked as invalid, and
`ConnectTip` takes it. -/
def ActiveSound (ctx : TreeContext) (outcomes : TipOutcomes) (tree : IndexTree) (tip : Uint256) :
    Prop :=
  ∀ low ∈ tree.path tip, (tree.entry low).nStatus.haveData = true ∧
    (tree.entry low).nStatus.failed = false ∧ ctx.Accepts outcomes low

/-- Entries without invalid ancestors. -/
theorem fitting_clean : Fitting IndexTree.Clean where
  clean _ _ := id
  unfailed _ hash self clean := clean hash self
  advances before after hash advances clean := by
    intro low member
    rw [← advances.path] at member
    exact advances.unfailed (clean low member)

/-- **The search can begin** from an index that passes the check. -/
theorem CheckedTree.searching (checked : ctx.CheckedTree tree tip) {outcomes : TipOutcomes}
    (contained : Contained tree tip) (active : ActiveSound ctx outcomes tree tip) :
    ctx.Searching (ctx.Accepts outcomes) IndexTree.Clean tree tip tip := by
  have leveled := checked.leveled
  obtain ⟨genesisKnown, genesisRoot⟩ := checked.genesis
  have rooted : ctx.Rooted tree := by
    refine ⟨contained.nodup, leveled, contained.skips, genesisKnown, fun hash known => ?_⟩
    refine ⟨fun root => ((checked.entries hash known).genesis root).1, ?_⟩
    rintro rfl
    exact genesisRoot
  have self := rooted.self_mem contained.tipKnown
  have present : ∀ hash ∈ tree.hashes, Linked tree hash → ∀ low ∈ tree.path hash,
      (tree.entry low).nStatus.haveData = true := by
    intro hash known linked low member
    rw [checked.linked_iff known, ← Bool.not_eq_true,
      IndexTree.hasMissing_iff leveled known] at linked
    rw [← Bool.not_eq_false]
    exact fun missing => linked ⟨low, member, missing⟩
  have linkedOf : ∀ hash ∈ tree.hashes,
      (∀ low ∈ tree.path hash, (tree.entry low).nStatus.haveData = true) → Linked tree hash := by
    intro hash known all
    rw [checked.linked_iff known, ← Bool.not_eq_true, IndexTree.hasMissing_iff leveled known]
    rintro ⟨low, member, missing⟩
    rw [all low member] at missing
    cases missing
  have complete : ∀ hash ∈ tree.hashes, Linked tree hash → tree.Clean hash →
      tree.rank ctx.address tip ≤ tree.rank ctx.address hash →
      hash ∈ tree.setBlockIndexCandidates := by
    intro hash known linked clean above
    have candidate := (checked.entries hash known).candidate
    have notWorse : tree.workComparator ctx.address hash tip = false := by
      rw [← Bool.not_eq_true, IndexTree.workComparator_iff]
      exact not_lt.mpr above
    rw [if_pos (by rw [notWorse, (checked.linked_iff known).mp linked]; rfl)] at candidate
    apply candidate
    rw [← Bool.not_eq_true, IndexTree.hasInvalid_iff leveled known]
    rintro ⟨low, member, invalid⟩
    have fine := clean low member
    rw [BlockStatus.failed, invalid] at fine
    cases fine
  have activeLinked : ∀ low ∈ tree.path tip, Linked tree low := by
    intro low member
    refine linkedOf low (rooted.known_of_mem contained.tipKnown member) fun lower inside => ?_
    exact (active lower (rooted.mem_trans contained.tipKnown inside member)).1
  have clean : tree.Clean tip := fun low member => (active low member).2.1
  refine ⟨rooted, contained.tipKnown, contained.mirrors, ?_, ?_, ?_, ?_, ?_, ?_, complete⟩
  · intro hash known linked low member
    have lowKnown := rooted.known_of_mem known member
    refine ⟨linkedOf low lowKnown fun lower inside => ?_, present hash known linked low member⟩
    exact present hash known linked lower (rooted.mem_trans known inside member)
  · intro hash known failed
    rw [← IndexTree.hasInvalid_iff leveled known, ← Bool.not_eq_false]
    intro none
    rw [(checked.entries hash known).failed none] at failed
    cases failed
  · exact fun low member =>
      ⟨(active low member).2.1, activeLinked low member, (active low member).2.2⟩
  · intro hash member
    have known := contained.candidates hash member
    refine ⟨known, ?_⟩
    rw [checked.linked_iff known, ← Bool.not_eq_true]
    intro missing
    have candidate := (checked.entries hash known).candidate
    rw [missing, Bool.not_true, Bool.and_false, if_neg (by simp)] at candidate
    exact candidate member
  · exact complete tip contained.tipKnown (activeLinked tip self) clean le_rfl
  · exact fun low member => ⟨(active low member).2.1, (active low member).2.2⟩

/-! ## The best chain -/

/-- The active chain ends at the best candidate. -/
structure BestActive (ctx : TreeContext) (tree : IndexTree) (tip : Uint256) : Prop where
  isTip : tree.tip = some tip
  candidate : tip ∈ tree.setBlockIndexCandidates
  /-- No ancestor is marked as invalid. -/
  clean : tree.Clean tip
  /-- No other candidate ranks above it, ... -/
  highest : ∀ other ∈ tree.setBlockIndexCandidates,
    tree.workComparator ctx.address tip other = false
  /-- ... and no other entry that is linked and without invalid ancestors. -/
  best : ∀ other ∈ tree.hashes, Linked tree other → tree.Clean other →
    tree.workComparator ctx.address tip other = false

theorem pending_lt (tree : IndexTree) (tip : Uint256) :
    pending tree tip < (tree.hashes.length + 1) ^ 2 := by
  have marks : (unmarked tree).card ≤ tree.hashes.toFinset.card :=
    Finset.card_le_card (Finset.filter_subset _ _)
  have ahead := ahead_le tree tip
  have size := tree.hashes.toFinset_card_le
  have product := Nat.mul_le_mul_right (tree.hashes.toFinset.card + 1) marks
  calc pending tree tip
      ≤ tree.hashes.toFinset.card * (tree.hashes.toFinset.card + 1) +
          tree.hashes.toFinset.card := Nat.add_le_add product ahead
    _ < (tree.hashes.toFinset.card + 1) ^ 2 := by
        rw [Nat.pow_two, Nat.succ_mul]
        omega
    _ ≤ (tree.hashes.length + 1) ^ 2 := Nat.pow_le_pow_left (Nat.succ_le_succ size) 2

theorem CheckBlockIndex.checkedTree (checked : ctx.CheckBlockIndex tree)
    (mirrors : tree.Mirrors tip) (known : tip ∈ tree.hashes) : ctx.CheckedTree tree tip := by
  have some : ¬ tree.chainHeight < 0 := by
    have nonempty : 0 < (tree.path tip).length :=
      List.length_pos_of_mem ParentTree.self_mem_climb
    have length : tree.vChain.length = (tree.path tip).length := by
      rw [mirrors, List.length_map, List.length_reverse]
    unfold IndexTree.chainHeight
    omega
  rw [CheckBlockIndex, if_neg some] at checked
  obtain ⟨other, checked⟩ := checked
  have same := checked.isTip.symm.trans (mirrors.tip_eq checked.leveled known)
  rw [← Option.some.inj same]
  exact checked

/-- Where the search ends, nothing better is left. -/
theorem Searching.bestActive {sound : Uint256 → Prop} {choice : Uint256}
    (searching : ctx.Searching sound IndexTree.Clean tree tip choice)
    (isTarget : ctx.Target tree tip tip) : ctx.BestActive tree tip := by
  have notAbove : ∀ other, tree.rank ctx.address other ≤ tree.rank ctx.address tip →
      tree.workComparator ctx.address tip other = false := by
    intro other below
    rw [← Bool.not_eq_true, IndexTree.workComparator_iff]
    exact not_lt.mpr below
  refine ⟨searching.isTip, isTarget.candidate, fun low member => (searching.active low member).1,
    fun other member => notAbove other (isTarget.highest other member), ?_⟩
  intro other known linked clean
  apply notAbove
  rcases le_or_gt (tree.rank ctx.address choice) (tree.rank ctx.address other) with above | below
  · exact isTarget.highest other (searching.complete other known linked clean above)
  · exact below.le.trans (isTarget.highest choice searching.isBest)

theorem judged_accepts {outcomes : TipOutcomes} (next : Uint256)
    (notFirst : next ≠ ctx.hashGenesisBlock) :
    (outcomes.connect next = .connected → ctx.Accepts outcomes next) ∧
      (outcomes.connect next = .invalid → ¬ ctx.Accepts outcomes next) := by
  refine ⟨Or.inr, fun invalid => ?_⟩
  rintro (first | connected)
  · exact notFirst first
  · exact absurd (invalid.symm.trans connected) (by simp)

/-- **The node ends on the best valid chain.** -/
theorem activateBestChain_best (ctx : TreeContext) (outcomes : TipOutcomes) (tree : IndexTree)
    (tip : Uint256) (checked : ctx.CheckBlockIndex tree) (contained : Contained tree tip)
    (active : ActiveSound ctx outcomes tree tip)
    (decided : ∀ hash, outcomes.connect hash = .connected ∨ outcomes.connect hash = .invalid)
    (undone : ∀ hash, outcomes.disconnect hash = true) :
    ∃ activation last,
      ctx.activateBestChain outcomes ((tree.hashes.length + 1) ^ 2) [] tree = some activation ∧
      activation.succeeds = true ∧ ctx.BestActive activation.tree last ∧
      ∀ hash ∈ activation.found, (activation.tree.entry hash).nStatus.failedValid = true := by
  have searching := (checked.checkedTree contained.mirrors contained.tipKnown).searching
    contained active
  obtain ⟨activation, last, choice, result, succeeds, -, final, isTarget, marked⟩ :=
    searching.activateBestChain fitting_clean undone decided judged_accepts (pending_lt tree tip)
      fun hash none => absurd none List.not_mem_nil
  exact ⟨activation, last, result, succeeds, final.bestActive isTarget, marked⟩

/-- A context whose first block has the hash one. -/
def plainContext : TreeContext where
  hashGenesisBlock := 1
  address := BitVec.toNat
  address_injective := fun _ _ same => BitVec.eq_of_toNat_eq same

/-- Two blocks with their data, of which the second has a given status. -/
def twoBlocks (nStatus : BlockStatus) (chain candidates : List Uint256) : IndexTree where
  hashes := [1, 2]
  entry hash :=
    if hash = 2 then
      { pprev := some 1, pskip := some 1, nHeight := 1, nChainWork := 2, nTx := 1, nChainTx := 2
        nStatus, nSequenceId := 2 }
    else
      { nChainWork := 1, nTx := 1, nChainTx := 1, nSequenceId := 1
        nStatus := { validity := .scripts, haveData := true } }
  vChain := chain.map some
  setBlockIndexCandidates := candidates

/-- The check of both blocks, where their fields are compared. -/
theorem checkBlockIndex_twoBlocks {nStatus : BlockStatus} {tip : Uint256}
    {chain candidates : List Uint256}
    (isTip : (twoBlocks nStatus chain candidates).tip = some tip)
    (entries : ∀ hash ∈ [1, 2],
      plainContext.CheckedEntry (twoBlocks nStatus chain candidates) tip hash) :
    plainContext.CheckBlockIndex (twoBlocks nStatus chain candidates) := by
  have lineages : (twoBlocks nStatus chain candidates).lineage 1 = [1] ∧
      (twoBlocks nStatus chain candidates).lineage 2 = [2, 1] := ⟨rfl, rfl⟩
  have some : ¬ (twoBlocks nStatus chain candidates).chainHeight < 0 := by
    intro none
    cases chain with
    | nil => cases isTip
    | cons first rest =>
        unfold IndexTree.chainHeight twoBlocks at none
        rw [List.length_map, List.length_cons] at none
        omega
  rw [CheckBlockIndex, if_neg some]
  refine ⟨tip, isTip, ⟨1, rfl⟩, ?_, entries⟩
  intro hash known
  rcases List.mem_cons.mp known with rfl | later
  · rw [lineages.1]
    exact ⟨List.forall_mem_singleton.mpr (List.mem_cons_self), 1, List.mem_singleton_self 1, rfl⟩
  · rw [List.mem_singleton.mp later, lineages.2]
    refine ⟨fun pindex member => ?_, 1, List.mem_cons_of_mem _ (List.mem_singleton_self 1), rfl⟩
    exact (List.Perm.swap 1 2 []).mem_iff.mp member

/-- The second block becomes the tip. -/
theorem activateBestChain_best_twoBlocks : ∃ activation last,
    plainContext.activateBestChain { connect := fun _ => .connected } 9 []
      (twoBlocks { validity := .transactions, haveData := true } [1] [1, 2]) = some activation ∧
    activation.succeeds = true ∧ plainContext.BestActive activation.tree last ∧
    ∀ hash ∈ activation.found, (activation.tree.entry hash).nStatus.failedValid = true := by
  refine activateBestChain_best plainContext _ _ 1 ?_ ?_ ?_ (fun _ => Or.inl rfl) fun _ => rfl
  · refine checkBlockIndex_twoBlocks rfl (List.forall_mem_cons.mpr ⟨?_,
      List.forall_mem_singleton.mpr ?_⟩)
    · exact ⟨fun _ => ⟨rfl, rfl⟩, rfl, rfl, by decide, rfl, rfl, fun _ none => (nomatch none),
        Or.inl (by decide), rfl, fun _ => rfl, fun _ => rfl, fun _ => rfl, by decide +kernel,
        by decide +kernel⟩
    · refine ⟨fun none => (nomatch none), rfl, rfl, by decide, rfl, rfl, ?_,
        Or.inl (by decide), rfl,
        by decide, by decide, fun _ => rfl, by decide +kernel, by decide +kernel⟩
      intro pprev parent
      cases parent
      decide +kernel
  · refine ⟨by decide, List.mem_cons_self, fun _ => id, rfl, ?_⟩
    refine List.forall_mem_cons.mpr ⟨fun _ none => (nomatch none), List.forall_mem_singleton.mpr ?_⟩
    intro up parent
    cases parent
    exact ⟨1, List.mem_singleton_self 1, rfl, rfl⟩
  · exact List.forall_mem_singleton.mpr ⟨rfl, rfl, Or.inl rfl⟩

/-- A chain whose tip is marked passes the check, without any candidate: it stays as it is. -/
theorem not_activateBestChain_best_marked :
    ∃ tree : IndexTree, plainContext.CheckBlockIndex tree ∧
      ¬ ∃ rounds activation tip,
        plainContext.activateBestChain { connect := fun _ => .connected } rounds [] tree =
          some activation ∧ activation.tree.tip = some tip ∧
        tip ∈ activation.tree.setBlockIndexCandidates ∧ activation.tree.Clean tip := by
  refine ⟨twoBlocks { validity := .scripts, haveData := true, failedValid := true } [1, 2] [],
    ?_, ?_⟩
  · refine checkBlockIndex_twoBlocks rfl (List.forall_mem_cons.mpr ⟨?_,
      List.forall_mem_singleton.mpr ?_⟩)
    · exact ⟨fun _ => ⟨rfl, rfl⟩, rfl, rfl, by decide, rfl, rfl, fun _ none => (nomatch none),
        Or.inl (by decide), rfl, fun _ => rfl, fun _ => rfl, fun _ => rfl, by decide +kernel,
        by decide +kernel⟩
    · refine ⟨fun none => (nomatch none), rfl, rfl, by decide, rfl, rfl, ?_,
        Or.inl (by decide), rfl,
        fun _ => rfl, fun _ => rfl, fun none => (nomatch none), by decide +kernel,
          by decide +kernel⟩
      intro pprev parent
      cases parent
      decide +kernel
  · rintro ⟨rounds, activation, tip, result, -, candidate, -⟩
    cases rounds with
    | zero => cases result
    | succ rounds =>
        cases result
        cases candidate

end TreeContext

end GiantCore
