import GiantCore.BlockIndex.Activation

/-! # The best chain becomes active

`ActivateBestChainStep` connects the blocks above the fork one after another, whatever the
batches. `ActivateBestChain` ends, since each round marks a block as invalid or gains work, and
it ends at the best candidate.
-/

namespace GiantCore

open GiantCore.Foundation

namespace IndexTree

variable {tree : IndexTree}

/-- The blocks of a branch above one of them, from the lowest to the highest. -/
def above (tree : IndexTree) (hash low : Uint256) : List Uint256 :=
  ((tree.path hash).takeWhile fun other => tree.height other ≠ tree.height low).reverse

/-- The search keeps what lies above a block. -/
theorem Advances.above {after : IndexTree} (advances : tree.Advances after) :
    after.above = tree.above := by
  funext hash low
  rw [IndexTree.above, advances.path, advances.height]
  rfl

section

variable (leveled : tree.Leveled) {hash : Uint256} (known : hash ∈ tree.hashes)

include leveled known

/-- What lies above a block is higher on the path. -/
theorem mem_above {low other : Uint256} (member : low ∈ tree.path hash)
    (inside : other ∈ tree.above hash low) :
    other ∈ tree.path hash ∧ tree.height low < tree.height other := by
  rw [above, List.mem_reverse] at inside
  exact ⟨(List.takeWhile_sublist _).subset inside,
    leveled.level_lt_of_mem_takeWhile known member inside⟩

/-- Nothing on a path lies above its end. -/
theorem above_self : tree.above hash hash = [] := by
  have whole := leveled.takeWhile_append_path known (leveled.self_mem_path known)
  rw [above, List.reverse_eq_nil_iff]
  exact List.append_left_eq_self.mp whole

/-- A branch can be cut at each of its blocks. -/
theorem above_append {low middle : Uint256} (lower : low ∈ tree.path middle)
    (upper : middle ∈ tree.path hash) :
    tree.above hash low = tree.above middle low ++ tree.above hash middle := by
  have middleKnown := leveled.known_of_mem_path known upper
  have limit : tree.height low ≤ tree.height middle := leveled.level_le middleKnown lower
  have whole := leveled.takeWhile_append_path known upper
  rw [above, above, above, ← List.reverse_append]
  congr 1
  rw [path, ← whole, List.takeWhile_append_of_pos]
  · rw [whole]
    rfl
  · intro other inside
    have higher := leveled.level_lt_of_mem_takeWhile known upper inside
    exact decide_eq_true (by omega)

/-- A block lies above its parent. -/
theorem above_child {up : Uint256} (parent : tree.parent hash = some up) :
    tree.above hash up = [hash] := by
  have higher := (leveled.child hash up known parent).2
  have upKnown := (leveled.child hash up known parent).1
  have rest := above_self leveled upKnown
  rw [above, List.reverse_eq_nil_iff] at rest
  rw [above, path, leveled.path_child known parent, List.takeWhile_cons_of_pos, List.reverse_cons]
  · have none : (ParentTree.path tree.parent tree.height up).takeWhile
        (fun other => tree.height other ≠ tree.height up) = [] := rest
    rw [none]
    rfl
  · exact decide_eq_true (by omega)

/-- The parent is on the path. -/
theorem up_mem_path {up : Uint256} (parent : tree.parent hash = some up) :
    up ∈ tree.path hash := by
  rw [path, leveled.path_child known parent]
  exact List.mem_cons_of_mem _ (leveled.self_mem_path (leveled.child hash up known parent).1)

/-- Other blocks of the path are on that of the parent. -/
theorem mem_path_up {up low : Uint256} (parent : tree.parent hash = some up)
    (member : low ∈ tree.path hash) (different : low ≠ hash) : low ∈ tree.path up := by
  rw [path, leveled.path_child known parent] at member
  exact (List.mem_cons.mp member).resolve_left different

/-- The end of the path comes last. -/
theorem above_eq_snoc {up low : Uint256} (parent : tree.parent hash = some up)
    (member : low ∈ tree.path up) : tree.above hash low = tree.above up low ++ [hash] := by
  rw [above_append leveled known member (up_mem_path leveled known parent),
    above_child leveled known parent]

/-- The last block above another is the end of the path. -/
theorem getLastD_above {low : Uint256} (member : low ∈ tree.path hash) :
    (tree.above hash low).getLastD low = hash := by
  rcases eq_or_ne low hash with rfl | different
  · rw [above_self leveled known]
    rfl
  · cases parent : tree.parent hash with
    | none =>
        rw [path, ParentTree.path_root parent] at member
        exact absurd (List.mem_singleton.mp member) different
    | some up =>
        rw [above_eq_snoc leveled known parent (mem_path_up leveled known parent member different),
          List.getLastD_eq_getLast?, List.getLast?_concat, Option.getD_some]

end

end IndexTree

namespace TreeContext

variable {ctx : TreeContext} {outcomes : TipOutcomes} {tree : IndexTree}

/-! ## One branch, whatever the batches -/

/-- Pruning the candidates keeps the tree. -/
theorem advances_pruneBlockIndexCandidates {after : IndexTree}
    (prunes : ctx.pruneBlockIndexCandidates tree = some after) : tree.Advances after := by
  unfold pruneBlockIndexCandidates at prunes
  dsimp only at prunes
  split at prunes
  · cases prunes
  · cases prunes
    exact ⟨rfl, fun _ => .refl _⟩

/-- `ConnectTip` keeps the tree. -/
theorem advances_connectTip {pindexNew : Uint256} {after : IndexTree} {result : ConnectResult}
    (connects : ctx.connectTip outcomes tree pindexNew = some (after, result)) :
    tree.Advances after := by
  unfold connectTip at connects
  split at connects
  · cases connects
  · cases outcome : outcomes.connect pindexNew with
    | connected =>
        rw [outcome] at connects
        cases connects
        exact ctx.advances_connected outcomes tree pindexNew
    | invalid =>
        rw [outcome] at connects
        cases connects
        exact (tree.advances_record _).trans (IndexTree.advances_invalidBlockFound _ _)
    | corrupted =>
        rw [outcome] at connects
        cases connects
        exact tree.advances_record _
    | error =>
        rw [outcome] at connects
        cases connects
        exact tree.advances_record _

/-- A batch of connections keeps the tree. -/
theorem advances_connectBlocks {pindexOldTip : Option Uint256} {branch : List Uint256}
    {after : IndexTree} {progress : Progress}
    (connects : ctx.connectBlocks outcomes pindexOldTip branch tree = some (after, progress)) :
    tree.Advances after := by
  induction branch generalizing tree with
  | nil =>
      cases connects
      exact .refl _
  | cons pindexConnect rest ih =>
      unfold connectBlocks at connects
      obtain ⟨⟨next, result⟩, one, others⟩ := Option.bind_eq_some_iff.mp connects
      have advances := advances_connectTip one
      cases result with
      | connected =>
          obtain ⟨pruned, prunes, later⟩ := Option.bind_eq_some_iff.mp others
          have further := advances.trans (advances_pruneBlockIndexCandidates prunes)
          split at later
          · cases later
            exact further
          · exact further.trans (ih later)
      | invalid | corrupted | error =>
          cases others
          exact advances

/-- A branch can be connected in parts. -/
theorem connectBlocks_append {pindexOldTip : Option Uint256} {first second : List Uint256} :
    ctx.connectBlocks outcomes pindexOldTip (first ++ second) tree =
      (ctx.connectBlocks outcomes pindexOldTip first tree).bind fun result =>
        if result.2 = .onward then ctx.connectBlocks outcomes pindexOldTip second result.1
        else some result := by
  induction first generalizing tree with
  | nil => rfl
  | cons pindexConnect rest ih =>
      rw [List.cons_append, connectBlocks, connectBlocks]
      cases one : ctx.connectTip outcomes tree pindexConnect with
      | none => rfl
      | some pair =>
          obtain ⟨next, result⟩ := pair
          dsimp only [bind, Option.bind]
          cases result with
          | connected =>
              dsimp only
              cases ctx.pruneBlockIndexCandidates next with
              | none => rfl
              | some pruned =>
                  dsimp only
                  split
                  · rfl
                  · exact ih
          | invalid | corrupted | error => rfl

/-- **The batches make no difference.** -/
theorem connectLoop_eq (ctx : TreeContext) (outcomes : TipOutcomes)
    (pindexOldTip : Option Uint256) {pindexMostWork low : Uint256} {rounds : Nat}
    (leveled : tree.Leveled) (skips : tree.SkipsBuilt) (known : pindexMostWork ∈ tree.hashes)
    (member : low ∈ tree.path pindexMostWork)
    (enough : tree.height pindexMostWork ≤ rounds + tree.height low) :
    ctx.connectLoop outcomes pindexOldTip pindexMostWork rounds (tree.height low) tree =
      ctx.connectBlocks outcomes pindexOldTip (tree.above pindexMostWork low) tree := by
  have limit : tree.height low ≤ tree.height pindexMostWork := leveled.level_le known member
  have finished : tree.height low = tree.height pindexMostWork →
      tree.above pindexMostWork low = [] := by
    intro same
    rw [leveled.eq_of_level_eq known member (leveled.self_mem_path known) same]
    exact IndexTree.above_self leveled known
  induction rounds generalizing tree low with
  | zero =>
      rw [finished (by omega)]
      rfl
  | succ rounds ih =>
      unfold connectLoop
      split
      · rename_i same
        rw [finished (by omega)]
        rfl
      · rename_i different
        obtain ⟨middle, inside, here, found⟩ := IndexTree.getAncestor_eq_some leveled skips known
          (min_le_right (tree.height low + 32) (tree.height pindexMostWork))
        have target : min ((tree.height low : Int) + 32) (tree.height pindexMostWork) =
            (tree.height middle : Int) := by omega
        have lower : low ∈ tree.path middle :=
          leveled.mem_path_of_level_le known member inside (by omega)
        have batch : ((tree.path middle).takeWhile fun pindexIter =>
            (tree.height pindexIter : Int) ≠ (tree.height low : Int)).reverse =
              tree.above middle low := by
          simp only [IndexTree.above, ne_eq, Nat.cast_inj]
        rw [← here] at found
        rw [target]
        dsimp only
        rw [found, Option.elim_some, batch, IndexTree.above_append leveled known lower inside,
          connectBlocks_append]
        dsimp only [bind]
        cases connects : ctx.connectBlocks outcomes pindexOldTip (tree.above middle low) tree with
        | none => rfl
        | some pair =>
            obtain ⟨next, progress⟩ := pair
            rw [Option.bind_some, Option.bind_some]
            dsimp only
            split
            · have advances := advances_connectBlocks connects
              have height : (tree.height middle : Int) = next.height middle := by
                rw [advances.height]
              rw [height, ih (advances.sameShape.leveled leveled)
                (advances.sameShape.skipsBuilt skips)
                (advances.hashes ▸ known), advances.above]
              · rw [advances.path]
                exact inside
              · rw [advances.height]
                omega
              · rw [advances.height]
                exact leveled.level_le known inside
              · rw [advances.height, advances.above]
                intro same
                rw [leveled.eq_of_level_eq known inside (leveled.self_mem_path known) same]
                exact IndexTree.above_self leveled known
            · rfl

/-! ## A whole step -/

section

variable {sound : Uint256 → Prop} {fits : IndexTree → Uint256 → Prop} {tip best : Uint256}

/-- A branch may grow by an unmarked child. -/
theorem Extends.snoc {branch : List Uint256} {next : Uint256}
    (extends_ : Extends tree tip branch) (known : next ∈ tree.hashes)
    (parent : tree.parent next = some (branch.getLastD tip)) (linked : Linked tree next)
    (unfailed : (tree.entry next).nStatus.failed = false) :
        Extends tree tip (branch ++ [next]) := by
  induction branch generalizing tip with
  | nil => exact ⟨known, parent, linked, unfailed, trivial⟩
  | cons first rest ih =>
      obtain ⟨firstKnown, firstParent, firstLinked, firstUnfailed, later⟩ := extends_
      rw [List.getLastD_cons] at parent
      exact ⟨firstKnown, firstParent, firstLinked, firstUnfailed, ih later parent⟩

/-- The blocks above one lead from it to the last block of the branch. -/
theorem extends_above (leveled : tree.Leveled) {hash low : Uint256} (known : hash ∈ tree.hashes)
    (member : low ∈ tree.path hash)
    (usable : ∀ other ∈ tree.path hash, tree.height low < tree.height other →
      Linked tree other ∧ (tree.entry other).nStatus.failed = false) :
    Extends tree low (tree.above hash low) := by
  induction hash, known using leveled.induct with
  | root hash known root =>
      rw [IndexTree.path, ParentTree.path_root root] at member
      rw [List.mem_singleton.mp member, IndexTree.above_self leveled known]
      trivial
  | child hash up known parent upKnown ih =>
      rcases eq_or_ne low hash with rfl | different
      · rw [IndexTree.above_self leveled known]
        trivial
      · have higher : tree.height hash = tree.height up + 1 :=
          (leveled.child hash up known parent).2
        have inUp := IndexTree.mem_path_up leveled known parent member different
        have limit : tree.height low ≤ tree.height up := leveled.level_le upKnown inUp
        have rest := ih inUp fun other inside =>
          usable other (leveled.mem_path_trans known inside
            (IndexTree.up_mem_path leveled known parent))
        obtain ⟨linked, unfailed⟩ := usable hash (leveled.self_mem_path known) (by omega)
        rw [IndexTree.above_eq_snoc leveled known parent inUp]
        refine rest.snoc known ?_ linked unfailed
        rw [IndexTree.getLastD_above leveled upKnown inUp]
        exact parent

/-- What stopped the batch is about the entries. -/
theorem Stopped.of_entry {pindexOldTip : Option Uint256} {middle : IndexTree}
    {last pindex : Uint256} (entry : middle.entry = tree.entry)
    (stopped : Stopped pindexOldTip middle tip last pindex) :
    Stopped pindexOldTip tree tip last pindex := by
  refine ⟨?_, entry ▸ stopped.short⟩
  rw [IndexTree.parent, ← entry]
  exact stopped.parent

/-- How the batch ended is about the entries. -/
theorem Ended.of_entry {pindexOldTip : Option Uint256} {branch : List Uint256}
    {middle after : IndexTree} {last : Uint256} {progress : Progress}
    (entry : middle.entry = tree.entry)
    (ended : Ended outcomes pindexOldTip branch middle after tip last progress) :
    Ended outcomes pindexOldTip branch tree after tip last progress := by
  cases ended with
  | onward top => exact .onward top
  | better member more => exact .better member (entry ▸ more)
  | rejected member stopped rejects before marked =>
      exact .rejected member (stopped.of_entry entry) rejects (entry ▸ before) marked
  | corrupted member stopped rejects => exact .corrupted member (stopped.of_entry entry) rejects
  | failed member stopped error => exact .failed member (stopped.of_entry entry) error

/-- What the active chain and a target have in common lies below their fork. -/
structure ForkOf (tree : IndexTree) (tip target fork : Uint256) : Prop where
  active : fork ∈ tree.path tip
  inTarget : fork ∈ tree.path target
  highest : ∀ other ∈ tree.path target, other ∈ tree.path tip → tree.height other ≤ tree.height fork

/-- **`ActivateBestChainStep`** goes back to the fork and connects the blocks above it. -/
theorem Searching.activateBestChainStep (fitting : Fitting fits)
    (searching : ctx.Searching sound fits tree tip best) {target : Uint256}
    (isTarget : ctx.Target tree tip target)
    (undone : ∀ low ∈ tree.path tip, low ∉ tree.path target → outcomes.disconnect low = true)
    (judged : ∀ next ∈ tree.path target, next ∉ tree.path tip →
      (outcomes.connect next = .connected → sound next) ∧
        (outcomes.connect next = .invalid → ¬ sound next)) :
    ∃ fork after last choice progress, ForkOf tree tip target fork ∧
      ctx.activateBestChainStep outcomes tree target = some (after, progress) ∧
      ctx.Moves outcomes (tree, tip) (after, last) ∧
      ctx.Searching sound fits after last choice ∧ fork ∈ tree.path last ∧
      (choice = best ∨ choice ∈ tree.path last) ∧
      Ended outcomes (some tip) (tree.above target fork) tree after fork last progress := by
  have leveled := searching.rooted.leveled
  obtain ⟨known, linked⟩ := searching.candidates target isTarget.candidate
  obtain ⟨fork, inTarget, active, found, highest⟩ := IndexTree.findFork_eq_some leveled
    searching.rooted.skips searching.rooted.single searching.mirrors searching.tipKnown known
  have length : tree.vChain.length = tree.height tip + 1 := by
    rw [searching.mirrors, List.length_map, List.length_reverse, IndexTree.path,
      leveled.length_path searching.tipKnown]
  have apart : ∀ other ∈ tree.path target, tree.height fork < tree.height other →
      other ∉ tree.path tip :=
    fun other inside higher ofTip => absurd (highest other inside ofTip) (not_le.mpr higher)
  have leaves : ∀ low ∈ tree.path tip, low ∉ tree.path fork → outcomes.disconnect low = true :=
    fun low member outside => undone low member fun inside => outside
      (leveled.mem_path_of_level_le known inside inTarget (highest low inside member))
  have enough : tree.height tip ≤ tree.vChain.length + tree.height fork := by omega
  obtain ⟨middle, loop, moves, back, -, entry⟩ :=
    searching.disconnectLoop fitting active leaves enough
  have advances : tree.Advances middle := Moves.advances ctx outcomes moves
  have rising : Extends tree fork (tree.above target fork) :=
    extends_above leveled known inTarget fun other inside higher =>
      ⟨(searching.linked target known linked other inside).1,
        isTarget.usable other inside (apart other inside higher)⟩
  have same : ∀ hash, (middle.entry hash).nStatus.failed = (tree.entry hash).nStatus.failed :=
    fun hash => by rw [entry]
  have judgedAbove : ∀ next ∈ tree.above target fork,
      (outcomes.connect next = .connected → sound next) ∧
        (outcomes.connect next = .invalid → ¬ sound next) := by
    intro next member
    obtain ⟨inside, higher⟩ := IndexTree.mem_above leveled known inTarget member
    exact judged next inside (apart next inside higher)
  obtain ⟨after, last, choice, progress, connects, further, final, below, isChoice, ended⟩ :=
    back.connectBlocks fitting (some tip) (rising.unmarked advances same) judgedAbove
  rw [advances.path] at below isChoice
  refine ⟨fork, after, last, choice, progress, ⟨active, inTarget, highest⟩, ?_,
    Relation.ReflTransGen.trans moves further, final, below, isChoice, ended.of_entry entry⟩
  have rounds : middle.height target ≤ tree.height target + 1 + middle.height fork := by
    rw [advances.height]
    omega
  have batches := connectLoop_eq ctx outcomes (some tip) (advances.sameShape.leveled leveled)
    (advances.sameShape.skipsBuilt searching.rooted.skips) (advances.hashes ▸ known)
    (by rw [advances.path]; exact inTarget) rounds
  rw [advances.height, advances.above, connects] at batches
  unfold TreeContext.activateBestChainStep
  rw [found, searching.isTip]
  dsimp only [bind]
  rw [loop]
  exact batches

/-! ## All rounds -/

/-- A move adds no candidate. -/
theorem Move.candidates {before after : IndexTree × Uint256}
    (move : ctx.Move outcomes before after) :
    ∀ hash ∈ after.1.setBlockIndexCandidates, hash ∈ before.1.setBlockIndexCandidates := by
  intro hash member
  cases move with
  | drop => exact (IndexTree.mem_candidates_dropChain.mp member).1
  | disconnect | record => exact member
  | connect | reject => exact List.mem_of_mem_filter member

/-- Moves add no candidate. -/
theorem Moves.candidates {before after : IndexTree × Uint256}
    (moves : ctx.Moves outcomes before after) :
    ∀ hash ∈ after.1.setBlockIndexCandidates, hash ∈ before.1.setBlockIndexCandidates := by
  induction moves with
  | refl => exact fun _ => id
  | tail _ move ih => exact fun hash member => ih hash (move.candidates hash member)

/-- The entries that are not marked. -/
def unmarked (tree : IndexTree) : Finset Uint256 :=
  tree.hashes.toFinset.filter fun hash => (tree.entry hash).nStatus.failed = false

/-- The entries with more work than one. -/
def ahead (tree : IndexTree) (tip : Uint256) : Finset Uint256 :=
  tree.hashes.toFinset.filter fun hash => (tree.entry tip).nChainWork < (tree.entry hash).nChainWork

/-- What falls in each round. -/
def pending (tree : IndexTree) (tip : Uint256) : Nat :=
  (unmarked tree).card * (tree.hashes.toFinset.card + 1) + (ahead tree tip).card

/-- No mark is taken back. -/
theorem unmarked_subset {after : IndexTree} (advances : tree.Advances after) :
    unmarked after ⊆ unmarked tree := by
  intro hash member
  rw [unmarked, Finset.mem_filter, advances.hashes] at member
  exact Finset.mem_filter.mpr ⟨member.1, advances.unfailed member.2⟩

/-- No more blocks are ahead than there are. -/
theorem ahead_le (tree : IndexTree) (tip : Uint256) :
    (ahead tree tip).card ≤ tree.hashes.toFinset.card :=
  Finset.card_le_card (Finset.filter_subset _ _)

/-- A block is marked. -/
theorem pending_lt_of_marked {after : IndexTree} {last pindex : Uint256}
    (advances : tree.Advances after) (known : pindex ∈ tree.hashes)
    (before : (tree.entry pindex).nStatus.failed = false)
    (marked : (after.entry pindex).nStatus.failed = true) :
        pending after last < pending tree tip := by
  have fewer : (unmarked after).card < (unmarked tree).card := by
    refine Finset.card_lt_card ⟨unmarked_subset advances, fun subset => ?_⟩
    have still := subset (Finset.mem_filter.mpr ⟨List.mem_toFinset.mpr known, before⟩)
    rw [unmarked, Finset.mem_filter, marked] at still
    cases still.2
  have bound := ahead_le after last
  rw [advances.hashes] at bound
  unfold pending
  rw [advances.hashes]
  calc (unmarked after).card * (tree.hashes.toFinset.card + 1) + (ahead after last).card
      < (unmarked after).card * (tree.hashes.toFinset.card + 1) +
          (tree.hashes.toFinset.card + 1) := by omega
    _ = ((unmarked after).card + 1) * (tree.hashes.toFinset.card + 1) := by rw [Nat.succ_mul]
    _ ≤ (unmarked tree).card * (tree.hashes.toFinset.card + 1) := Nat.mul_le_mul_right _ fewer
    _ ≤ (unmarked tree).card * (tree.hashes.toFinset.card + 1) + (ahead tree tip).card :=
        Nat.le_add_right _ _

/-- The tip gains work. -/
theorem pending_lt_of_better {after : IndexTree} {last : Uint256} (advances : tree.Advances after)
    (known : last ∈ tree.hashes)
    (more : (tree.entry tip).nChainWork < (tree.entry last).nChainWork) :
    pending after last < pending tree tip := by
  have fewer : (ahead after last).card < (ahead tree tip).card := by
    refine Finset.card_lt_card ⟨fun hash member => ?_, fun subset => ?_⟩
    · rw [ahead, Finset.mem_filter, advances.hashes, advances.nChainWork,
        advances.nChainWork] at member
      exact Finset.mem_filter.mpr ⟨member.1, BitVec.lt_trans more member.2⟩
    · have still := subset (Finset.mem_filter.mpr ⟨List.mem_toFinset.mpr known, more⟩)
      exact BitVec.lt_irrefl _ (Finset.mem_filter.mp still).2
  have marks := Nat.mul_le_mul_right (tree.hashes.toFinset.card + 1)
    (Finset.card_le_card (unmarked_subset advances))
  unfold pending
  rw [advances.hashes]
  omega

/-- The chain is at the best candidate. -/
theorem Searching.target_of_tip (fitting : Fitting fits) {after : IndexTree} {last choice : Uint256}
    (final : ctx.Searching sound fits after last choice) (advances : tree.Advances after)
    (fewer : ∀ hash ∈ after.setBlockIndexCandidates, hash ∈ tree.setBlockIndexCandidates)
    (highest : ∀ other ∈ tree.setBlockIndexCandidates,
      tree.rank ctx.address other ≤ tree.rank ctx.address last) : ctx.Target after last last := by
  have above : ∀ other ∈ after.setBlockIndexCandidates,
      after.rank ctx.address other ≤ after.rank ctx.address last := by
    intro other member
    rw [advances.rank]
    exact highest other (fewer other member)
  have linked := (final.active last (final.rooted.self_mem final.tipKnown)).2.1
  have clean : after.Clean last := fun low member => (final.active low member).1
  exact ⟨final.complete last final.tipKnown linked (fitting.clean after last clean)
    (above choice final.isBest), above, fun low member outside => absurd member outside⟩

/-- The first block is on every path. -/
theorem Rooted.genesis_mem_path (rooted : ctx.Rooted tree) {hash : Uint256}
    (known : hash ∈ tree.hashes) : ctx.hashGenesisBlock ∈ tree.path hash := by
  obtain ⟨root, member, top⟩ := rooted.leveled.exists_root known
  rw [← (rooted.root root (rooted.known_of_mem known member)).mp top]
  exact member

/-- **`ActivateBestChain` ends**, at the best candidate. -/
theorem Searching.activateBestChain (fitting : Fitting fits) {rounds : Nat} {found : List Uint256}
    (searching : ctx.Searching sound fits tree tip best)
    (undone : ∀ hash, outcomes.disconnect hash = true)
    (decided : ∀ hash, outcomes.connect hash = .connected ∨ outcomes.connect hash = .invalid)
    (judged : ∀ next, next ≠ ctx.hashGenesisBlock →
      (outcomes.connect next = .connected → sound next) ∧
        (outcomes.connect next = .invalid → ¬ sound next))
    (enough : pending tree tip < rounds)
    (marked : ∀ hash ∈ found, (tree.entry hash).nStatus.failedValid = true) :
    ∃ activation last choice,
      ctx.activateBestChain outcomes rounds found tree = some activation ∧
      activation.succeeds = true ∧ ctx.Moves outcomes (tree, tip) (activation.tree, last) ∧
      ctx.Searching sound fits activation.tree last choice ∧ ctx.Target activation.tree last last ∧
      ∀ hash ∈ activation.found, (activation.tree.entry hash).nStatus.failedValid = true := by
  induction rounds generalizing tree tip best found with
  | zero => exact absurd enough (Nat.not_lt_zero _)
  | succ rounds ih =>
      obtain ⟨searched, target, finds, moves, between, isTarget, -⟩ :=
        searching.findMostWorkLoop outcomes fitting le_rfl
      have advances : tree.Advances searched := Moves.advances ctx outcomes moves
      have still : ∀ hash ∈ found, (searched.entry hash).nStatus.failedValid = true :=
        fun hash member => (advances.entry hash).failedValid (marked hash member)
      unfold TreeContext.activateBestChain findMostWorkChain
      rw [finds]
      dsimp only [bind, Option.bind]
      rw [between.isTip]
      rcases eq_or_ne tip target with rfl | different
      · rw [if_pos rfl]
        exact ⟨_, tip, best, rfl, rfl, moves, between, isTarget, still⟩
      · rw [if_neg (by simpa using different)]
        have judgedHere : ∀ next ∈ searched.path target, next ∉ searched.path tip →
            (outcomes.connect next = .connected → sound next) ∧
              (outcomes.connect next = .invalid → ¬ sound next) := by
          intro next _ outside
          refine judged next ?_
          rintro rfl
          exact outside (between.rooted.genesis_mem_path between.tipKnown)
        obtain ⟨fork, after, last, choice, progress, isFork, step, further, final, -, -, ended⟩ :=
          between.activateBestChainStep fitting isTarget (fun hash _ _ => undone hash) judgedHere
        have later : searched.Advances after := Moves.advances ctx outcomes further
        have whole := Relation.ReflTransGen.trans moves further
        have marks : ∀ hash ∈ found, (after.entry hash).nStatus.failedValid = true :=
          fun hash member => (later.entry hash).failedValid (still hash member)
        have targetKnown := (between.candidates target isTarget.candidate).1
        have ofBranch : ∀ hash ∈ searched.above target fork, hash ∈ searched.hashes :=
          fun hash member => between.rooted.known_of_mem targetKnown
            (IndexTree.mem_above between.rooted.leveled targetKnown isFork.inTarget member).1
        have finished : last = target → ctx.Target after last last := by
          rintro rfl
          exact final.target_of_tip fitting later (Moves.candidates further) isTarget.highest
        -- the next round begins where this one ended, with fewer entries to go
        have goOn : ∀ invalid : List Uint256,
            (∀ hash ∈ invalid, (after.entry hash).nStatus.failedValid = true) →
            pending after last < pending tree tip → ∃ activation last choice,
              (if after.tip = some target then some ⟨after, true, invalid⟩
                else ctx.activateBestChain outcomes rounds invalid after) = some activation ∧
              activation.succeeds = true ∧
              ctx.Moves outcomes (tree, tip) (activation.tree, last) ∧
              ctx.Searching sound fits activation.tree last choice ∧
              ctx.Target activation.tree last last ∧
              ∀ hash ∈ activation.found,
                (activation.tree.entry hash).nStatus.failedValid = true := by
          intro invalid allMarked less
          rw [final.isTip]
          rcases eq_or_ne last target with same | notYet
          · rw [if_pos (by rw [same])]
            exact ⟨_, last, choice, rfl, rfl, whole, final, finished same, allMarked⟩
          · rw [if_neg (by simpa using notYet)]
            obtain ⟨activation, lastly, chosen, result, succeeds, moved, others⟩ :=
              ih final (by omega) allMarked
            exact ⟨activation, lastly, chosen, result, succeeds,
              Relation.ReflTransGen.trans whole moved, others⟩
        rw [step]
        dsimp only
        cases ended with
        | onward top =>
            rw [IndexTree.getLastD_above between.rooted.leveled targetKnown isFork.inTarget] at top
            rw [final.isTip, if_pos (by rw [top])]
            exact ⟨_, last, choice, rfl, rfl, whole, final, finished top, marks⟩
        | better member more =>
            apply goOn found marks
            refine pending_lt_of_better (advances.trans later)
              (advances.hashes ▸ ofBranch last member) ?_
            rw [← advances.nChainWork, ← advances.nChainWork]
            exact more tip rfl
        | @rejected pindex member _ rejects before invalid =>
            apply goOn (found ++ [pindex])
            · intro hash inside
              rcases List.mem_append.mp inside with earlier | only
              · exact marks hash earlier
              · rw [List.mem_singleton.mp only]
                exact invalid
            · refine pending_lt_of_marked (advances.trans later)
                (advances.hashes ▸ ofBranch pindex member) (advances.unfailed before) ?_
              rw [BlockStatus.failed, invalid, Bool.true_or]
        | @corrupted pindex _ _ rejects =>
            rcases decided pindex with connected | invalid
            · exact absurd (rejects.symm.trans connected) (by simp)
            · exact absurd (rejects.symm.trans invalid) (by simp)
        | @failed pindex _ _ error =>
            rcases decided pindex with connected | invalid
            · exact absurd (error.symm.trans connected) (by simp)
            · exact absurd (error.symm.trans invalid) (by simp)

end

end TreeContext

end GiantCore
