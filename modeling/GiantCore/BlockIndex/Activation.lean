import GiantCore.BlockIndex.Selection
import Mathlib.Data.Finset.Max

/-! # The search for the best chain

What `FindMostWorkChain`, `ConnectTip` and `ActivateBestChainStep` keep. Entries only gain flags
and levels of validity. Between any two steps there is a candidate without invalid ancestors, and
everything that ranks at least as high and can be linked is a candidate too.
-/

namespace GiantCore

open GiantCore.Foundation

/-! ## What the search changes -/

/-- An entry changes in its status, its undo position and the money that is counted. -/
structure TreeEntry.Advances (before after : TreeEntry) : Prop where
  same : after = { before with
    nStatus := after.nStatus
    nUndoPos := after.nUndoPos
    nMint := after.nMint
    nMoneySupply := after.nMoneySupply
    mapZerocoinSupply := after.mapZerocoinSupply
    vMintDenominationsInBlock := after.vMintDenominationsInBlock }
  haveData : after.nStatus.haveData = before.nStatus.haveData
  failedValid : before.nStatus.failedValid = true → after.nStatus.failedValid = true
  failed : before.nStatus.failed = true → after.nStatus.failed = true
  reaches : ∀ nUpTo, before.nStatus.reaches nUpTo = true → after.nStatus.reaches nUpTo = true

namespace TreeEntry.Advances

/-- Nothing changes. -/
theorem refl (entry : TreeEntry) : Advances entry entry :=
  ⟨rfl, rfl, id, id, fun _ => id⟩

/-- One change after another. -/
theorem trans {first second third : TreeEntry} (before : Advances first second)
    (after : Advances second third) : Advances first third where
  same := by
    rw [after.same, before.same]
  haveData := after.haveData.trans before.haveData
  failedValid := after.failedValid ∘ before.failedValid
  failed := after.failed ∘ before.failed
  reaches nUpTo := after.reaches nUpTo ∘ before.reaches nUpTo

/-- All other fields stay as they are. -/
theorem field {before after : TreeEntry} (advances : Advances before after) {β : Type}
    (field : TreeEntry → β) (keeps : ∀ nStatus nUndoPos nMint nMoneySupply mapZerocoinSupply
      vMintDenominationsInBlock, field { before with
        nStatus, nUndoPos, nMint, nMoneySupply, mapZerocoinSupply, vMintDenominationsInBlock } =
          field before) : field after = field before := by
  rw [advances.same]
  exact keeps _ _ _ _ _ _

end TreeEntry.Advances

/-- Raising the validity keeps whether the data is there. -/
theorem BlockStatus.raiseValidity_haveData (nStatus : BlockStatus) (nUpTo : BlockValidity) :
    (nStatus.raiseValidity nUpTo).haveData = nStatus.haveData := by
  unfold raiseValidity
  split
  · rfl
  · split <;> rfl

/-- Raising the validity marks no block as invalid. -/
theorem BlockStatus.raiseValidity_failedValid (nStatus : BlockStatus) (nUpTo : BlockValidity) :
    (nStatus.raiseValidity nUpTo).failedValid = nStatus.failedValid := by
  unfold raiseValidity
  split
  · rfl
  · split <;> rfl

/-- Raising the validity keeps the bits of a failure. -/
theorem BlockStatus.raiseValidity_failed (nStatus : BlockStatus) (nUpTo : BlockValidity) :
    (nStatus.raiseValidity nUpTo).failed = nStatus.failed := by
  unfold raiseValidity
  split
  · rfl
  · split <;> rfl

/-- Raising the validity never lowers it. -/
theorem BlockStatus.reaches_raiseValidity {nStatus : BlockStatus} {nUpTo other : BlockValidity}
    (reached : nStatus.reaches other = true) :
    (nStatus.raiseValidity nUpTo).reaches other = true := by
  unfold raiseValidity
  split
  · exact reached
  · split
    · exact reached
    · rename_i lower
      unfold reaches at reached lower ⊢
      rw [decide_eq_true_eq] at reached lower ⊢
      dsimp only
      omega

/-- The pointers between the entries do not change. -/
structure IndexTree.SameShape (before after : IndexTree) : Prop where
  hashes : after.hashes = before.hashes
  parent : after.parent = before.parent
  height : after.height = before.height
  pskip : ∀ hash, (after.entry hash).pskip = (before.entry hash).pskip

namespace IndexTree.SameShape

variable {before after : IndexTree} (same : before.SameShape after)

include same

/-- Trees of the same shape have the same paths. -/
theorem path : after.path = before.path := by
  unfold IndexTree.path
  rw [same.parent, same.height]

/-- The heights still follow the parents. -/
theorem leveled (tree : before.Leveled) : after.Leveled := by
  unfold Leveled
  rw [same.hashes, same.parent, same.height]
  exact tree

/-- The skip pointers are still those of `BuildSkip`. -/
theorem skipsBuilt (skips : before.SkipsBuilt) : after.SkipsBuilt := by
  unfold SkipsBuilt
  rw [same.hashes, same.parent, same.height, same.path]
  intro hash known up above
  obtain ⟨skip, member, pointer, lower⟩ := skips hash known up above
  exact ⟨skip, member, (same.pskip hash).trans pointer, lower⟩

end IndexTree.SameShape

/-- The tree itself does not change. -/
structure IndexTree.Advances (before after : IndexTree) : Prop where
  hashes : after.hashes = before.hashes
  entry : ∀ hash, (before.entry hash).Advances (after.entry hash)

namespace IndexTree.Advances

variable {before after : IndexTree} (advances : before.Advances after)

/-- A tree that stays as it is. -/
theorem refl (tree : IndexTree) : Advances tree tree := ⟨rfl, fun _ => .refl _⟩

/-- One change of a tree after another. -/
theorem trans {first second third : IndexTree} (one : Advances first second)
    (two : Advances second third) : Advances first third where
  hashes := two.hashes.trans one.hashes
  entry hash := (one.entry hash).trans (two.entry hash)

include advances

/-- The search keeps parents, heights and skip pointers. -/
theorem sameShape : before.SameShape after where
  hashes := advances.hashes
  parent := funext fun hash => (advances.entry hash).field TreeEntry.pprev fun _ _ _ _ _ _ => rfl
  height := funext fun hash => (advances.entry hash).field TreeEntry.nHeight fun _ _ _ _ _ _ => rfl
  pskip hash := (advances.entry hash).field TreeEntry.pskip fun _ _ _ _ _ _ => rfl

theorem parent : after.parent = before.parent := advances.sameShape.parent

theorem height : after.height = before.height := advances.sameShape.height

theorem path : after.path = before.path := advances.sameShape.path

/-- The search keeps the work of every chain. -/
theorem nChainWork (hash : Uint256) :
    (after.entry hash).nChainWork = (before.entry hash).nChainWork :=
  (advances.entry hash).field TreeEntry.nChainWork fun _ _ _ _ _ _ => rfl

/-- The search keeps the number of transactions of every chain. -/
theorem nChainTx (hash : Uint256) : (after.entry hash).nChainTx = (before.entry hash).nChainTx :=
  (advances.entry hash).field TreeEntry.nChainTx fun _ _ _ _ _ _ => rfl

/-- The search keeps the order in which blocks were received. -/
theorem nSequenceId (hash : Uint256) :
    (after.entry hash).nSequenceId = (before.entry hash).nSequenceId :=
  (advances.entry hash).field TreeEntry.nSequenceId fun _ _ _ _ _ _ => rfl

/-- The order of the candidates stays the same. -/
theorem rank (address : Uint256 → Nat) : after.rank address = before.rank address := by
  funext hash
  rw [IndexTree.rank, IndexTree.rank, advances.nChainWork, advances.nSequenceId]

/-- A block that is not marked afterwards was not marked before. -/
theorem unfailed {hash : Uint256} (fine : (after.entry hash).nStatus.failed = false) :
    (before.entry hash).nStatus.failed = false := by
  rw [← Bool.not_eq_true] at fine ⊢
  exact fun failed => fine ((advances.entry hash).failed failed)

end IndexTree.Advances

/-- **One tree**, whose only root is the first block. -/
structure TreeContext.Rooted (ctx : TreeContext) (tree : IndexTree) : Prop where
  nodup : tree.hashes.Nodup
  leveled : tree.Leveled
  skips : tree.SkipsBuilt
  genesis : ctx.hashGenesisBlock ∈ tree.hashes
  root : ∀ hash ∈ tree.hashes, tree.parent hash = none ↔ hash = ctx.hashGenesisBlock

namespace TreeContext.Rooted

variable {ctx : TreeContext} {tree : IndexTree} (rooted : ctx.Rooted tree)

include rooted

/-- The first block stays the root in a tree of the same shape. -/
theorem sameShape {after : IndexTree} (same : tree.SameShape after) : ctx.Rooted after where
  nodup := same.hashes ▸ rooted.nodup
  leveled := same.leveled rooted.leveled
  skips := same.skipsBuilt rooted.skips
  genesis := same.hashes ▸ rooted.genesis
  root := by
    rw [same.hashes, same.parent]
    exact rooted.root

/-- The first block stays the root while the search goes on. -/
theorem advances {after : IndexTree} (advances : tree.Advances after) : ctx.Rooted after :=
  rooted.sameShape advances.sameShape

/-- There is one root. -/
theorem single : ∀ first ∈ tree.hashes, ∀ second ∈ tree.hashes, tree.parent first = none →
    tree.parent second = none → first = second := by
  intro first firstKnown second secondKnown one two
  rw [(rooted.root first firstKnown).mp one, (rooted.root second secondKnown).mp two]

/-- A block lies on its own path. -/
theorem self_mem {hash : Uint256} (known : hash ∈ tree.hashes) : hash ∈ tree.path hash :=
  rooted.leveled.self_mem_path known

/-- The path of a known block has known blocks only. -/
theorem known_of_mem {hash other : Uint256} (known : hash ∈ tree.hashes)
    (member : other ∈ tree.path hash) : other ∈ tree.hashes :=
  rooted.leveled.known_of_mem_path known member

/-- Ancestors of ancestors are ancestors. -/
theorem mem_trans {low middle high : Uint256} (known : high ∈ tree.hashes)
    (lower : low ∈ tree.path middle) (upper : middle ∈ tree.path high) : low ∈ tree.path high :=
  rooted.leveled.mem_path_trans known lower upper

/-- The path of a block is the block and the path of its parent. -/
theorem path_child {hash up : Uint256} (known : hash ∈ tree.hashes)
    (above : tree.parent hash = some up) : tree.path hash = hash :: tree.path up :=
  rooted.leveled.path_child known above

end TreeContext.Rooted

/-! ## The single moves -/

namespace IndexTree

variable (tree : IndexTree)

/-- Neither the block nor an ancestor is marked as invalid. -/
def Clean (hash : Uint256) : Prop :=
  ∀ low ∈ tree.path hash, (tree.entry low).nStatus.failed = false

/-- Recording the supply keeps the tree. -/
theorem advances_record (recorded : Uint256 → Option SupplyRecord) :
    tree.Advances (tree.record recorded) where
  hashes := rfl
  entry hash := by
    unfold record
    dsimp only
    cases recorded hash with
    | none => exact .refl _
    | some supply => exact ⟨rfl, rfl, id, id, fun _ => id⟩

/-- A change of one entry. -/
theorem advances_modify {hash : Uint256} {change : TreeEntry → TreeEntry}
    (advances : (tree.entry hash).Advances (change (tree.entry hash))) :
    tree.Advances (tree.modify hash change) where
  hashes := rfl
  entry other := by
    unfold modify
    dsimp only
    rcases eq_or_ne other hash with rfl | different
    · rw [Function.update_self]
      exact advances
    · rw [Function.update_of_ne different]
      exact .refl _

/-- Marking a block as invalid keeps the tree. -/
theorem advances_invalidBlockFound (pindex : Uint256) :
    tree.Advances (tree.invalidBlockFound pindex) := by
  have advances : tree.Advances (tree.modify pindex fun entry =>
      { entry with nStatus := { entry.nStatus with failedValid := true } }) :=
    tree.advances_modify ⟨rfl, rfl, fun _ => rfl, fun _ => rfl, fun _ => id⟩
  exact ⟨advances.hashes, advances.entry⟩

/-- Dropping a chain from the candidates keeps the tree. -/
theorem advances_dropChain (pindexNew pindexTest : Uint256) :
    tree.Advances (tree.dropChain pindexNew pindexTest) where
  hashes := rfl
  entry hash := by
    unfold dropChain
    dsimp only
    split
    · refine ⟨rfl, rfl, id, fun _ => ?_, fun _ => id⟩
      exact Bool.or_true _
    · exact .refl _

/-- Moving the tip keeps the tree. -/
theorem advances_setTip (pindex : Option Uint256) : tree.Advances (tree.setTip pindex) := by
  cases pindex with
  | none => exact ⟨rfl, fun _ => .refl _⟩
  | some hash => exact ⟨rfl, fun _ => .refl _⟩

end IndexTree

namespace TreeContext

variable (ctx : TreeContext) (outcomes : TipOutcomes)

/-- Connecting a block raises its status only. -/
theorem advances_connectedEntry (pindexNew : Uint256) (nUndoPos : Nat) (entry : TreeEntry) :
    entry.Advances (ctx.connectedEntry pindexNew nUndoPos entry) := by
  unfold connectedEntry
  split
  · exact .refl _
  · split
    · refine ⟨rfl, ?_, ?_, ?_, fun nUpTo reached => ?_⟩
      · exact BlockStatus.raiseValidity_haveData _ _
      · dsimp only
        rw [BlockStatus.raiseValidity_failedValid]
        exact id
      · dsimp only
        rw [BlockStatus.raiseValidity_failed]
        exact id
      · dsimp only
        apply BlockStatus.reaches_raiseValidity
        exact reached
    · exact .refl _

/-- The tree when a block is connected, before it becomes the tip. -/
def written (tree : IndexTree) (next : Uint256) : IndexTree :=
  (tree.record (outcomes.recorded next)).modify next
    (ctx.connectedEntry next (outcomes.nUndoPos next))

/-- The tree when a block is connected, with the candidates not yet pruned. -/
def connected (tree : IndexTree) (next : Uint256) : IndexTree :=
  (ctx.written outcomes tree next).setTip (some next)

/-- The candidates that do not sort before an entry. -/
def prunedAt (tree : IndexTree) (tip : Uint256) : IndexTree :=
  { tree with setBlockIndexCandidates := tree.setBlockIndexCandidates.filter fun pindex =>
      !tree.workComparator ctx.address pindex tip }

/-- Writing the entry of a connected block keeps the tree. -/
theorem advances_written (tree : IndexTree) (next : Uint256) :
    tree.Advances (ctx.written outcomes tree next) :=
  (tree.advances_record _).trans
    (IndexTree.advances_modify _ (ctx.advances_connectedEntry next _ _))

/-- Connecting a block keeps the tree. -/
theorem advances_connected (tree : IndexTree) (next : Uint256) :
    tree.Advances (ctx.connected outcomes tree next) :=
  (ctx.advances_written outcomes tree next).trans (IndexTree.advances_setTip _ _)

/-- Pruning the candidates keeps the tree. -/
theorem advances_prunedAt (tree : IndexTree) (tip : Uint256) :
    tree.Advances (ctx.prunedAt tree tip) := ⟨rfl, fun _ => .refl _⟩

/-- The entry is linked to the first block. -/
def Linked (tree : IndexTree) (hash : Uint256) : Prop := (tree.entry hash).nChainTx ≠ 0

/-- `ConnectTip` takes the block; the first one is never connected again. -/
def Accepts (hash : Uint256) : Prop :=
  hash = ctx.hashGenesisBlock ∨ outcomes.connect hash = .connected

/-- **What can happen to the tree and its tip** while the best chain is looked for. -/
inductive Move : IndexTree × Uint256 → IndexTree × Uint256 → Prop
  /-- A chain of candidates above an invalid block is dropped. -/
  | drop {tree : IndexTree} {tip pindexNew pindexTest : Uint256}
      (candidate : pindexNew ∈ tree.setBlockIndexCandidates)
      (ancestor : pindexTest ∈ tree.path pindexNew) (outside : pindexTest ∉ tree.path tip)
      (failed : (tree.entry pindexTest).nStatus.failed = true) :
      Move (tree, tip) (tree.dropChain pindexNew pindexTest, tip)
  | disconnect {tree : IndexTree} {tip up : Uint256} (parent : tree.parent tip = some up) :
      Move (tree, tip) (tree.setTip (some up), up)
  | connect {tree : IndexTree} {tip next : Uint256} (known : next ∈ tree.hashes)
      (parent : tree.parent next = some tip) (linked : Linked tree next)
      (unfailed : (tree.entry next).nStatus.failed = false)
      (connects : outcomes.connect next = .connected) :
      Move (tree, tip) (ctx.prunedAt (ctx.connected outcomes tree next) next, next)
  /-- A block is found invalid. -/
  | reject {tree : IndexTree} {tip next : Uint256} (known : next ∈ tree.hashes)
      (parent : tree.parent next = some tip) (linked : Linked tree next)
      (unfailed : (tree.entry next).nStatus.failed = false)
      (rejects : outcomes.connect next = .invalid) :
      Move (tree, tip) ((tree.record (outcomes.recorded next)).invalidBlockFound next, tip)
  /-- A block is not connected, for another reason. -/
  | record {tree : IndexTree} {tip : Uint256} (recorded : Uint256 → Option SupplyRecord) :
      Move (tree, tip) (tree.record recorded, tip)

/-- A sequence of moves. -/
def Moves : IndexTree × Uint256 → IndexTree × Uint256 → Prop :=
  Relation.ReflTransGen (ctx.Move outcomes)

/-- One move of the tip keeps the tree. -/
theorem Move.advances {before after : IndexTree × Uint256} (move : ctx.Move outcomes before after) :
    before.1.Advances after.1 := by
  cases move with
  | drop => exact IndexTree.advances_dropChain _ _ _
  | disconnect => exact IndexTree.advances_setTip _ (some _)
  | connect => exact (ctx.advances_connected outcomes _ _).trans (ctx.advances_prunedAt _ _)
  | reject =>
      exact (IndexTree.advances_record _ _).trans (IndexTree.advances_invalidBlockFound _ _)
  | record => exact IndexTree.advances_record _ _

/-- Any moves of the tip keep the tree. -/
theorem Moves.advances {before after : IndexTree × Uint256}
    (moves : ctx.Moves outcomes before after) : before.1.Advances after.1 := by
  induction moves with
  | refl => exact .refl _
  | tail _ move ih => exact ih.trans (move.advances ctx outcomes)

/-! ## What holds between the moves -/

/-- A notion of entries that can be chosen: those without invalid ancestors can, those that are
marked themselves cannot, and further marks make fewer of them. -/
structure Fitting (fits : IndexTree → Uint256 → Prop) : Prop where
  clean : ∀ tree hash, tree.Clean hash → fits tree hash
  unfailed : ∀ tree hash, hash ∈ tree.path hash → fits tree hash →
    (tree.entry hash).nStatus.failed = false
  advances : ∀ before after hash, before.Advances after → fits after hash → fits before hash

/-- **The invariant of the search.** There is a candidate `best` that can be connected, and all
entries that rank at least as high, are linked and fit are candidates. The active blocks and those
below `best` are `sound`: they will not be found invalid. -/
structure Searching (sound : Uint256 → Prop) (fits : IndexTree → Uint256 → Prop)
    (tree : IndexTree) (tip best : Uint256) : Prop where
  rooted : ctx.Rooted tree
  tipKnown : tip ∈ tree.hashes
  mirrors : tree.Mirrors tip
  linked : ∀ hash ∈ tree.hashes, Linked tree hash → ∀ low ∈ tree.path hash, Linked tree low ∧
    (tree.entry low).nStatus.haveData = true
  blamed : ∀ hash ∈ tree.hashes, (tree.entry hash).nStatus.failed = true →
    ∃ low ∈ tree.path hash, (tree.entry low).nStatus.failedValid = true
  active : ∀ low ∈ tree.path tip, (tree.entry low).nStatus.failed = false ∧ Linked tree low ∧
    sound low
  candidates : ∀ hash ∈ tree.setBlockIndexCandidates, hash ∈ tree.hashes ∧ Linked tree hash
  isBest : best ∈ tree.setBlockIndexCandidates
  bestClean : ∀ low ∈ tree.path best, (tree.entry low).nStatus.failed = false ∧
    sound low
  complete : ∀ hash ∈ tree.hashes, Linked tree hash → fits tree hash →
    tree.rank ctx.address best ≤ tree.rank ctx.address hash →
    hash ∈ tree.setBlockIndexCandidates

end TreeContext

namespace IndexTree

variable {tree after : IndexTree}

/-- A chain stays the path of its tip while the tree does not change. -/
theorem Mirrors.advances {hash : Uint256} (mirrors : tree.Mirrors hash)
    (advances : tree.Advances after) (same : after.vChain = tree.vChain) :
    after.Mirrors hash := by
  rw [Mirrors, same, advances.path]
  exact mirrors

/-- The entries that `dropChain` marks have the invalid block among their ancestors. -/
theorem mem_path_of_dropped (leveled : tree.Leveled) {pindexNew pindexTest hash : Uint256}
    (known : pindexNew ∈ tree.hashes) (ancestor : pindexTest ∈ tree.path pindexNew)
    (above : hash ∈ (tree.path pindexNew).takeWhile (· ≠ pindexTest)) :
    pindexTest ∈ tree.path hash :=
  leveled.mem_path_of_mem_takeWhile known ancestor above

/-- What `dropChain` marks. -/
theorem failed_dropChain {pindexNew pindexTest hash : Uint256}
    (failed : (tree.entry pindexTest).nStatus.failed = true) :
    ((tree.dropChain pindexNew pindexTest).entry hash).nStatus.failed = true ↔
      (tree.entry hash).nStatus.failed = true ∨
        hash ∈ (tree.path pindexNew).takeWhile (· ≠ pindexTest) := by
  unfold dropChain
  dsimp only
  rw [failed, Bool.true_and]
  split
  · rename_i above
    rw [List.contains_iff_mem] at above
    refine ⟨fun _ => Or.inr above, fun _ => ?_⟩
    exact Bool.or_true _
  · rename_i other
    rw [List.contains_iff_mem] at other
    exact ⟨Or.inl, fun either => either.resolve_right other⟩

/-- Dropping a chain marks no block as invalid by itself. -/
theorem failedValid_dropChain {pindexNew pindexTest hash : Uint256} :
    ((tree.dropChain pindexNew pindexTest).entry hash).nStatus.failedValid =
      (tree.entry hash).nStatus.failedValid := by
  unfold dropChain
  dsimp only
  split <;> rfl

/-- The invalid block, and no other, is marked. -/
theorem failedValid_invalidBlockFound {pindex hash : Uint256} :
    ((tree.invalidBlockFound pindex).entry hash).nStatus.failedValid = true ↔
      (tree.entry hash).nStatus.failedValid = true ∨ hash = pindex := by
  unfold invalidBlockFound modify
  dsimp only
  rcases eq_or_ne hash pindex with rfl | different
  · rw [Function.update_self]
    exact ⟨fun _ => Or.inr rfl, fun _ => rfl⟩
  · rw [Function.update_of_ne different]
    exact ⟨Or.inl, fun either => either.resolve_right different⟩

/-- The invalid block is the only one that fails in addition. -/
theorem failed_invalidBlockFound {pindex hash : Uint256} :
    ((tree.invalidBlockFound pindex).entry hash).nStatus.failed = true ↔
      (tree.entry hash).nStatus.failed = true ∨ hash = pindex := by
  unfold invalidBlockFound modify
  dsimp only
  rcases eq_or_ne hash pindex with rfl | different
  · rw [Function.update_self]
    exact ⟨fun _ => Or.inr rfl, fun _ => rfl⟩
  · rw [Function.update_of_ne different]
    exact ⟨Or.inl, fun either => either.resolve_right different⟩

/-- Recording the supply marks no block. -/
theorem failed_record {recorded : Uint256 → Option SupplyRecord} {hash : Uint256} :
    ((tree.record recorded).entry hash).nStatus.failed = (tree.entry hash).nStatus.failed := by
  unfold record
  dsimp only
  cases recorded hash <;> rfl

/-- Recording the supply finds no block invalid. -/
theorem failedValid_record {recorded : Uint256 → Option SupplyRecord} {hash : Uint256} :
    ((tree.record recorded).entry hash).nStatus.failedValid =
      (tree.entry hash).nStatus.failedValid := by
  unfold record
  dsimp only
  cases recorded hash <;> rfl

/-- The blocks of the dropped chain are no candidates any more, and all others stay. -/
theorem mem_candidates_dropChain {pindexNew pindexTest hash : Uint256} :
    hash ∈ (tree.dropChain pindexNew pindexTest).setBlockIndexCandidates ↔
      hash ∈ tree.setBlockIndexCandidates ∧
        hash ∉ (tree.path pindexNew).takeWhile (· ≠ pindexTest) ∧ hash ≠ pindexTest := by
  unfold dropChain
  dsimp only
  rw [List.mem_filter, Bool.and_eq_true, Bool.not_eq_true', bne_iff_ne]
  rw [← Bool.not_eq_true, List.contains_iff_mem]

end IndexTree

namespace TreeContext

variable {ctx : TreeContext} {outcomes : TipOutcomes} {tree : IndexTree} {next hash : Uint256}

/-- Connecting a block marks none. -/
theorem status_connectedEntry {nUndoPos : Nat} {entry : TreeEntry} :
    (ctx.connectedEntry next nUndoPos entry).nStatus.failed = entry.nStatus.failed ∧
      (ctx.connectedEntry next nUndoPos entry).nStatus.failedValid = entry.nStatus.failedValid := by
  unfold connectedEntry
  split
  · exact ⟨rfl, rfl⟩
  · split
    · exact ⟨BlockStatus.raiseValidity_failed _ _, BlockStatus.raiseValidity_failedValid _ _⟩
    · exact ⟨rfl, rfl⟩

/-- Connecting a block marks nothing. -/
theorem status_connected :
    ((ctx.connected outcomes tree next).entry hash).nStatus.failed =
        (tree.entry hash).nStatus.failed ∧
      ((ctx.connected outcomes tree next).entry hash).nStatus.failedValid =
        (tree.entry hash).nStatus.failedValid := by
  have recorded : ∀ other, ((tree.record (outcomes.recorded next)).entry other).nStatus.failed =
      (tree.entry other).nStatus.failed ∧
        ((tree.record (outcomes.recorded next)).entry other).nStatus.failedValid =
          (tree.entry other).nStatus.failedValid :=
    fun _ => ⟨IndexTree.failed_record, IndexTree.failedValid_record⟩
  change ((ctx.written outcomes tree next).entry hash).nStatus.failed = _ ∧
    ((ctx.written outcomes tree next).entry hash).nStatus.failedValid = _
  unfold written IndexTree.modify
  dsimp only
  rcases eq_or_ne hash next with rfl | different
  · rw [Function.update_self, status_connectedEntry.1, status_connectedEntry.2]
    exact recorded hash
  · rw [Function.update_of_ne different]
    exact recorded hash

/-- A connected block fails as little as before. -/
theorem failed_connected : ((ctx.connected outcomes tree next).entry hash).nStatus.failed =
    (tree.entry hash).nStatus.failed := status_connected.1

/-- No block gets invalid when one is connected. -/
theorem failedValid_connected :
    ((ctx.connected outcomes tree next).entry hash).nStatus.failedValid =
      (tree.entry hash).nStatus.failedValid := status_connected.2

end TreeContext

/-- Which chains have all their transactions does not change. -/
theorem IndexTree.Advances.linked_iff {before after : IndexTree}
    (advances : before.Advances after) {hash : Uint256} :
    TreeContext.Linked after hash ↔ TreeContext.Linked before hash := by
  rw [TreeContext.Linked, advances.nChainTx]
  exact Iff.rfl

/-- A linked chain stays linked. -/
theorem IndexTree.Advances.linked {before after : IndexTree} (advances : before.Advances after)
    {hash : Uint256} (linked : TreeContext.Linked before hash) : TreeContext.Linked after hash :=
  advances.linked_iff.mpr linked

namespace TreeContext.Searching

variable {ctx : TreeContext} {outcomes : TipOutcomes} {sound : Uint256 → Prop}
  {fits : IndexTree → Uint256 → Prop} {tree : IndexTree} {tip best : Uint256}

/-- While searching, the tip is the last block of the active chain. -/
theorem isTip (searching : ctx.Searching sound fits tree tip best) : tree.tip = some tip :=
  searching.mirrors.tip_eq searching.rooted.leveled searching.tipKnown

/-- The active chain is the path of the tip. -/
theorem contains_iff (searching : ctx.Searching sound fits tree tip best) {hash : Uint256} :
    tree.contains hash = true ↔ hash ∈ tree.path tip :=
  searching.mirrors.contains_iff searching.rooted.leveled searching.tipKnown

/-- Linked blocks keep their data while the search goes on. -/
theorem linked_advances (searching : ctx.Searching sound fits tree tip best)
    {after : IndexTree} (advances : tree.Advances after) :
    ∀ hash ∈ after.hashes, Linked after hash → ∀ low ∈ after.path hash, Linked after low ∧
      (after.entry low).nStatus.haveData = true := by
  intro hash known linked low member
  rw [advances.hashes] at known
  rw [advances.path] at member
  rw [(advances.entry low).haveData, advances.linked_iff]
  exact searching.linked hash known (advances.linked_iff.mp linked) low member

/-- Dropping a chain above an invalid block. -/
theorem drop (fitting : Fitting fits) (searching : ctx.Searching sound fits tree tip best)
    {pindexNew pindexTest : Uint256} (candidate : pindexNew ∈ tree.setBlockIndexCandidates)
    (ancestor : pindexTest ∈ tree.path pindexNew) (outside : pindexTest ∉ tree.path tip)
    (failed : (tree.entry pindexTest).nStatus.failed = true) :
    ctx.Searching sound fits (tree.dropChain pindexNew pindexTest) tip best := by
  have leveled := searching.rooted.leveled
  have newKnown := (searching.candidates pindexNew candidate).1
  have advances := tree.advances_dropChain pindexNew pindexTest
  have below : ∀ hash ∈ (tree.path pindexNew).takeWhile (· ≠ pindexTest),
      pindexTest ∈ tree.path hash :=
    fun _ => IndexTree.mem_path_of_dropped leveled newKnown ancestor
  have marked : ∀ hash, ((tree.dropChain pindexNew pindexTest).entry hash).nStatus.failed = true ↔
      (tree.entry hash).nStatus.failed = true ∨
        hash ∈ (tree.path pindexNew).takeWhile (· ≠ pindexTest) :=
    fun _ => IndexTree.failed_dropChain failed
  -- what has the invalid block below it is neither active nor the best candidate
  have notAbove : ∀ start ∈ tree.hashes, pindexTest ∉ tree.path start → ∀ low ∈ tree.path start,
      low ∉ (tree.path pindexNew).takeWhile (· ≠ pindexTest) := by
    intro start known absent low member above
    exact absent (searching.rooted.mem_trans known (below low above) member)
  have keeps : ∀ start ∈ tree.hashes, pindexTest ∉ tree.path start → ∀ low ∈ tree.path start,
      (tree.entry low).nStatus.failed = false →
      ((tree.dropChain pindexNew pindexTest).entry low).nStatus.failed = false := by
    intro start known absent low member fine
    rw [← Bool.not_eq_true] at fine ⊢
    rw [marked low]
    exact fun either => either.elim fine (notAbove start known absent low member)
  have bestKnown := (searching.candidates best searching.isBest).1
  have bestApart : pindexTest ∉ tree.path best := by
    intro member
    have fine := (searching.bestClean pindexTest member).1
    rw [failed] at fine
    cases fine
  refine ⟨searching.rooted.advances advances, searching.tipKnown,
    searching.mirrors.advances advances rfl, searching.linked_advances advances, ?_, ?_, ?_, ?_, ?_,
    ?_⟩
  · intro hash known isFailed
    rw [advances.path]
    have source : ∃ low ∈ tree.path hash, (tree.entry low).nStatus.failedValid = true := by
      rcases (marked hash).mp isFailed with before | above
      · exact searching.blamed hash known before
      · obtain ⟨low, member, invalid⟩ := searching.blamed pindexTest
          (searching.rooted.known_of_mem newKnown ancestor) failed
        exact ⟨low, searching.rooted.mem_trans known member (below hash above), invalid⟩
    obtain ⟨low, member, invalid⟩ := source
    exact ⟨low, member, IndexTree.failedValid_dropChain.trans invalid⟩
  · intro low member
    rw [advances.path] at member
    obtain ⟨fine, linked, accepts⟩ := searching.active low member
    exact ⟨keeps tip searching.tipKnown outside low member fine, advances.linked linked, accepts⟩
  · intro hash member
    obtain ⟨known, linked⟩ :=
      searching.candidates hash (IndexTree.mem_candidates_dropChain.mp member).1
    exact ⟨known, advances.linked linked⟩
  · have self := searching.rooted.self_mem bestKnown
    refine IndexTree.mem_candidates_dropChain.mpr ⟨searching.isBest,
      notAbove best bestKnown bestApart best self, ?_⟩
    rintro rfl
    exact bestApart self
  · intro low member
    rw [advances.path] at member
    obtain ⟨fine, accepts⟩ := searching.bestClean low member
    exact ⟨keeps best bestKnown bestApart low member fine, accepts⟩
  · intro hash known linked fit above
    rw [advances.rank] at above
    have self : hash ∈ (tree.dropChain pindexNew pindexTest).path hash := by
      rw [advances.path]
      exact searching.rooted.self_mem known
    have fine := fitting.unfailed _ hash self fit
    rw [← Bool.not_eq_true, marked, not_or] at fine
    refine IndexTree.mem_candidates_dropChain.mpr ⟨?_, fine.2, ?_⟩
    · exact searching.complete hash known (advances.linked_iff.mp linked)
        (fitting.advances _ _ hash advances fit) above
    · rintro rfl
      exact fine.1 failed

/-- A change that marks nothing, to another tip and another best candidate. -/
theorem unmarked (fitting : Fitting fits) (searching : ctx.Searching sound fits tree tip best)
    {after : IndexTree} {last choice : Uint256} (advances : tree.Advances after)
    (failed : ∀ hash, (after.entry hash).nStatus.failed = (tree.entry hash).nStatus.failed)
    (failedValid : ∀ hash,
      (after.entry hash).nStatus.failedValid = (tree.entry hash).nStatus.failedValid)
    (lastKnown : last ∈ tree.hashes) (mirrors : after.Mirrors last)
    (active : ∀ low ∈ tree.path last, (tree.entry low).nStatus.failed = false ∧ Linked tree low ∧
      sound low)
    (fewer : ∀ hash ∈ after.setBlockIndexCandidates, hash ∈ tree.setBlockIndexCandidates)
    (isChoice : choice ∈ after.setBlockIndexCandidates)
    (choiceClean : ∀ low ∈ tree.path choice, (tree.entry low).nStatus.failed = false ∧
      sound low)
    (complete : ∀ hash ∈ tree.hashes, Linked tree hash → fits tree hash →
      tree.rank ctx.address choice ≤ tree.rank ctx.address hash →
      hash ∈ after.setBlockIndexCandidates) :
    ctx.Searching sound fits after last choice := by
  refine ⟨searching.rooted.advances advances, advances.hashes ▸ lastKnown, mirrors,
    searching.linked_advances advances, ?_, ?_, ?_, isChoice, ?_, ?_⟩
  · intro hash known isFailed
    rw [advances.hashes] at known
    rw [failed] at isFailed
    rw [advances.path]
    obtain ⟨low, member, invalid⟩ := searching.blamed hash known isFailed
    exact ⟨low, member, (failedValid low).trans invalid⟩
  · intro low member
    rw [advances.path] at member
    rw [failed, advances.linked_iff]
    exact active low member
  · intro hash member
    rw [advances.hashes, advances.linked_iff]
    exact searching.candidates hash (fewer hash member)
  · intro low member
    rw [advances.path] at member
    rw [failed]
    exact choiceClean low member
  · intro hash known linked fit above
    rw [advances.hashes] at known
    rw [advances.rank] at above
    exact complete hash known (advances.linked_iff.mp linked)
      (fitting.advances _ _ hash advances fit) above

/-- The tip goes back to its parent. -/
theorem disconnect (fitting : Fitting fits)
    (searching : ctx.Searching sound fits tree tip best) {up : Uint256}
    (parent : tree.parent tip = some up) :
    ctx.Searching sound fits (tree.setTip (some up)) up best := by
  have leveled := searching.rooted.leveled
  have upKnown := (leveled.child tip up searching.tipKnown parent).1
  refine searching.unmarked fitting (tree.advances_setTip (some up)) (fun _ => rfl) (fun _ => rfl)
    upKnown ?_ ?_ (fun _ => id) searching.isBest searching.bestClean searching.complete
  · exact IndexTree.mirrors_setTip leveled
      (searching.mirrors.closedBelow leveled searching.tipKnown) upKnown
  · intro low member
    refine searching.active low ?_
    rw [searching.rooted.path_child searching.tipKnown parent]
    exact List.mem_cons_of_mem _ member

/-- The supply of entries is recorded. -/
theorem record (fitting : Fitting fits) (searching : ctx.Searching sound fits tree tip best)
    (recorded : Uint256 → Option SupplyRecord) :
    ctx.Searching sound fits (tree.record recorded) tip best := by
  have advances := tree.advances_record recorded
  exact searching.unmarked fitting advances (fun _ => IndexTree.failed_record)
    (fun _ => IndexTree.failedValid_record) searching.tipKnown
    (searching.mirrors.advances advances rfl) searching.active (fun _ => id) searching.isBest
    searching.bestClean searching.complete

/-- A block is connected; it may become the best candidate. -/
theorem connect (outcomes : TipOutcomes) (fitting : Fitting fits)
    (searching : ctx.Searching sound fits tree tip best)
    {next : Uint256} (known : next ∈ tree.hashes) (parent : tree.parent next = some tip)
    (linked : Linked tree next) (unfailed : (tree.entry next).nStatus.failed = false)
    (isSound : sound next) :
    ∃ choice, ctx.Searching sound fits (ctx.prunedAt (ctx.connected outcomes tree next) next)
      next choice ∧ (choice = best ∨ choice = next) := by
  have leveled := searching.rooted.leveled
  have advances := (ctx.advances_connected outcomes tree next).trans
    (ctx.advances_prunedAt _ next)
  have pathNext := searching.rooted.path_child known parent
  have active : ∀ low ∈ tree.path next, (tree.entry low).nStatus.failed = false ∧
      Linked tree low ∧ sound low := by
    intro low member
    rw [pathNext] at member
    rcases List.mem_cons.mp member with rfl | lower
    · exact ⟨unfailed, linked, isSound⟩
    · exact searching.active low lower
  have mirrors : (ctx.prunedAt (ctx.connected outcomes tree next) next).Mirrors next := by
    have changed := ctx.advances_written outcomes tree next
    have before := searching.mirrors.advances changed rfl
    have levels := changed.sameShape.leveled leveled
    exact IndexTree.mirrors_setTip levels (before.closedBelow levels searching.tipKnown) known
  have kept : ∀ hash, hash ∈ (ctx.prunedAt (ctx.connected outcomes tree next)
      next).setBlockIndexCandidates ↔ hash ∈ tree.setBlockIndexCandidates ∧
        tree.rank ctx.address next ≤ tree.rank ctx.address hash := by
    intro hash
    rw [prunedAt, List.mem_filter, Bool.not_eq_true', ← Bool.not_eq_true,
      IndexTree.workComparator_iff, not_lt, (ctx.advances_connected outcomes tree next).rank]
    exact Iff.rfl
  have built : ∀ choice, choice ∈ tree.setBlockIndexCandidates →
      tree.rank ctx.address next ≤ tree.rank ctx.address choice →
      tree.rank ctx.address best ≤ tree.rank ctx.address choice →
      (∀ low ∈ tree.path choice, (tree.entry low).nStatus.failed = false ∧
        sound low) →
      ctx.Searching sound fits (ctx.prunedAt (ctx.connected outcomes tree next) next)
        next choice := by
    intro choice candidate aboveNext aboveBest clean
    refine searching.unmarked fitting advances (fun _ => failed_connected)
      (fun _ => failedValid_connected) known mirrors active
          (fun hash member => ((kept hash).mp member).1)
      ((kept choice).mpr ⟨candidate, aboveNext⟩) clean ?_
    intro hash hashKnown hashLinked fit above
    refine (kept hash).mpr ⟨?_, aboveNext.trans above⟩
    exact searching.complete hash hashKnown hashLinked fit (aboveBest.trans above)
  rcases le_or_gt (tree.rank ctx.address next) (tree.rank ctx.address best) with below | above
  · exact ⟨best, built best searching.isBest below le_rfl searching.bestClean, Or.inl rfl⟩
  · refine ⟨next, built next ?_ le_rfl above.le fun low member => ?_, Or.inr rfl⟩
    · refine searching.complete next known linked (fitting.clean tree next ?_) above.le
      exact fun low member => (active low member).1
    · exact ⟨(active low member).1, (active low member).2.2⟩

/-- The block after the tip is found invalid. -/
theorem invalidBlockFound (fitting : Fitting fits)
    (searching : ctx.Searching sound fits tree tip best) {next : Uint256}
    (known : next ∈ tree.hashes) (unsound : ¬ sound next) :
    ctx.Searching sound fits (tree.invalidBlockFound next) tip best := by
  have leveled := searching.rooted.leveled
  have advances := tree.advances_invalidBlockFound next
  have bestKnown := (searching.candidates best searching.isBest).1
  have notActive : next ∉ tree.path tip := fun member => unsound (searching.active next member).2.2
  have notBest : next ∉ tree.path best := fun member => unsound (searching.bestClean next member).2
  have keeps : ∀ start, next ∉ tree.path start → ∀ low ∈ tree.path start,
      (tree.entry low).nStatus.failed = false →
      ((tree.invalidBlockFound next).entry low).nStatus.failed = false := by
    intro start absent low member fine
    rw [← Bool.not_eq_true] at fine ⊢
    rw [IndexTree.failed_invalidBlockFound]
    rintro (before | rfl)
    · exact fine before
    · exact absent member
  refine ⟨searching.rooted.advances advances, searching.tipKnown,
    searching.mirrors.advances advances rfl, searching.linked_advances advances, ?_, ?_, ?_, ?_, ?_,
    ?_⟩
  · intro hash hashKnown isFailed
    rw [advances.path]
    rcases IndexTree.failed_invalidBlockFound.mp isFailed with before | rfl
    · obtain ⟨low, member, invalid⟩ := searching.blamed hash hashKnown before
      exact ⟨low, member, IndexTree.failedValid_invalidBlockFound.mpr (Or.inl invalid)⟩
    · exact ⟨hash, searching.rooted.self_mem hashKnown,
        IndexTree.failedValid_invalidBlockFound.mpr (Or.inr rfl)⟩
  · intro low member
    rw [advances.path] at member
    obtain ⟨fine, linked, accepts⟩ := searching.active low member
    exact ⟨keeps tip notActive low member fine, advances.linked linked, accepts⟩
  · intro hash member
    obtain ⟨hashKnown, linked⟩ := searching.candidates hash (List.mem_of_mem_filter member)
    exact ⟨hashKnown, advances.linked linked⟩
  · refine List.mem_filter.mpr ⟨searching.isBest, decide_eq_true ?_⟩
    rintro rfl
    exact notBest (searching.rooted.self_mem bestKnown)
  · intro low member
    rw [advances.path] at member
    obtain ⟨fine, accepts⟩ := searching.bestClean low member
    exact ⟨keeps best notBest low member fine, accepts⟩
  · intro hash hashKnown linked fit above
    rw [advances.rank] at above
    have self : hash ∈ (tree.invalidBlockFound next).path hash := by
      rw [advances.path]
      exact searching.rooted.self_mem hashKnown
    have fine := fitting.unfailed _ hash self fit
    rw [← Bool.not_eq_true, IndexTree.failed_invalidBlockFound, not_or] at fine
    refine List.mem_filter.mpr ⟨?_, decide_eq_true fine.2⟩
    exact searching.complete hash hashKnown (advances.linked_iff.mp linked)
      (fitting.advances _ _ hash advances fit) above

/-- A block is found invalid, after something was recorded. -/
theorem reject (fitting : Fitting fits) (searching : ctx.Searching sound fits tree tip best)
    {next : Uint256} (known : next ∈ tree.hashes) (unsound : ¬ sound next)
    (recorded : Uint256 → Option SupplyRecord) :
    ctx.Searching sound fits ((tree.record recorded).invalidBlockFound next) tip best :=
  (searching.record fitting recorded).invalidBlockFound fitting known unsound

end TreeContext.Searching

/-! ## `FindMostWorkChain` -/

namespace TreeContext

variable {ctx : TreeContext} {outcomes : TipOutcomes} {sound : Uint256 → Prop}
  {fits : IndexTree → Uint256 → Prop} {tree : IndexTree} {tip best : Uint256}

/-- The last candidate is the one of the highest rank. -/
theorem exists_bestCandidate (ctx : TreeContext) (nonempty : best ∈ tree.setBlockIndexCandidates) :
    ∃ pindex ∈ tree.setBlockIndexCandidates, ctx.bestCandidate tree = some pindex ∧
      ∀ other ∈ tree.setBlockIndexCandidates,
        tree.rank ctx.address other ≤ tree.rank ctx.address pindex := by
  obtain ⟨top, topMember, highest⟩ := tree.setBlockIndexCandidates.toFinset.exists_max_image
    (tree.rank ctx.address) ⟨best, List.mem_toFinset.mpr nonempty⟩
  unfold bestCandidate
  cases first : tree.setBlockIndexCandidates.find? fun pa =>
      tree.setBlockIndexCandidates.all fun pb => !tree.workComparator ctx.address pa pb with
  | none =>
      refine absurd ?_ (List.find?_eq_none.mp first top (List.mem_toFinset.mp topMember))
      rw [List.all_eq_true]
      intro other member
      rw [Bool.not_eq_true', ← Bool.not_eq_true, IndexTree.workComparator_iff, not_lt]
      exact highest other (List.mem_toFinset.mpr member)
  | some pindex =>
      refine ⟨pindex, List.mem_of_find?_eq_some first, rfl, fun other member => ?_⟩
      have found := List.find?_some first
      have above := List.all_eq_true.mp found other member
      rw [Bool.not_eq_true', ← Bool.not_eq_true, IndexTree.workComparator_iff, not_lt] at above
      exact above

/-- No ancestor outside the active chain is marked. -/
def Usable (tree : IndexTree) (tip hash : Uint256) : Prop :=
  ∀ low ∈ tree.path hash, low ∉ tree.path tip → (tree.entry low).nStatus.failed = false

/-- What `FindMostWorkChain` finds: the best candidate, whose ancestors outside the active chain
are not invalid. -/
structure Target (ctx : TreeContext) (tree : IndexTree) (tip target : Uint256) : Prop where
  candidate : target ∈ tree.setBlockIndexCandidates
  highest : ∀ other ∈ tree.setBlockIndexCandidates,
    tree.rank ctx.address other ≤ tree.rank ctx.address target
  usable : Usable tree tip target

/-- What can be used is not dropped, and can still be used. -/
theorem Searching.usable_dropChain (searching : ctx.Searching sound fits tree tip best)
    {pindexNew pindexTest other : Uint256} (candidate : pindexNew ∈ tree.setBlockIndexCandidates)
    (ancestor : pindexTest ∈ tree.path pindexNew) (outside : pindexTest ∉ tree.path tip)
    (failed : (tree.entry pindexTest).nStatus.failed = true)
    (member : other ∈ tree.setBlockIndexCandidates) (usable : Usable tree tip other) :
    other ∈ (tree.dropChain pindexNew pindexTest).setBlockIndexCandidates ∧
      Usable (tree.dropChain pindexNew pindexTest) tip other := by
  have advances := tree.advances_dropChain pindexNew pindexTest
  have newKnown := (searching.candidates pindexNew candidate).1
  have otherKnown := (searching.candidates other member).1
  have apart : pindexTest ∉ tree.path other := by
    intro below
    rw [usable pindexTest below outside] at failed
    cases failed
  have notAbove : ∀ low ∈ tree.path other,
      low ∉ (tree.path pindexNew).takeWhile (· ≠ pindexTest) := by
    intro low inside above
    have below := IndexTree.mem_path_of_dropped searching.rooted.leveled newKnown ancestor above
    exact apart (searching.rooted.mem_trans otherKnown below inside)
  have self := searching.rooted.self_mem otherKnown
  refine ⟨IndexTree.mem_candidates_dropChain.mpr ⟨member, notAbove other self, ?_⟩, ?_⟩
  · rintro rfl
    exact apart self
  · rw [Usable, advances.path]
    intro low inside inactive
    rw [← Bool.not_eq_true, IndexTree.failed_dropChain failed, not_or, Bool.not_eq_true]
    exact ⟨usable low inside inactive, notAbove low inside⟩

/-- The assertion of `FindMostWorkChain` holds below every candidate. -/
theorem Searching.linkedOrFirst (searching : ctx.Searching sound fits tree tip best)
    {hash : Uint256} (candidate : hash ∈ tree.setBlockIndexCandidates) :
    ∀ low ∈ tree.path hash, tree.linkedOrFirst low = true := by
  obtain ⟨known, linked⟩ := searching.candidates hash candidate
  intro low member
  unfold IndexTree.linkedOrFirst
  rw [bne_iff_ne.mpr (searching.linked hash known linked low member).1, Bool.true_or]

/-- The loop of `FindMostWorkChain`. -/
theorem Searching.findMostWorkLoop (outcomes : TipOutcomes) (fitting : Fitting fits) {rounds : Nat}
    (searching : ctx.Searching sound fits tree tip best)
    (enough : tree.setBlockIndexCandidates.length ≤ rounds) :
    ∃ found target, ctx.findMostWorkLoop rounds tree = some (found, some target) ∧
      ctx.Moves outcomes (tree, tip) (found, tip) ∧
      ctx.Searching sound fits found tip best ∧ ctx.Target found tip target ∧
      ∀ other ∈ tree.setBlockIndexCandidates, Usable tree tip other →
        other ∈ found.setBlockIndexCandidates := by
  induction rounds generalizing tree with
  | zero =>
      have none := List.eq_nil_of_length_eq_zero (Nat.le_zero.mp enough)
      exact absurd (none ▸ searching.isBest) List.not_mem_nil
  | succ rounds ih =>
      obtain ⟨pindexNew, candidate, isBest, highest⟩ :=
        exists_bestCandidate ctx searching.isBest
      have newKnown := (searching.candidates pindexNew candidate).1
      have linked := searching.linkedOrFirst candidate
      unfold TreeContext.findMostWorkLoop
      rw [isBest]
      dsimp only
      have inChain : ∀ low ∈ (tree.path pindexNew).takeWhile fun pindex => !tree.contains pindex,
          low ∈ tree.path pindexNew := fun low member => (List.takeWhile_sublist _).subset member
      cases first : ((tree.path pindexNew).takeWhile fun pindex => !tree.contains pindex).find?
          tree.unusable with
      | none =>
          refine ⟨tree, pindexNew, ?_, Relation.ReflTransGen.refl, searching,
            ⟨candidate, highest, ?_⟩, fun _ member _ => member⟩
          · dsimp only
            rw [if_pos]
            exact List.all_eq_true.mpr fun low member => linked low (inChain low member)
          · intro low member outside
            have whole := List.takeWhile_append_dropWhile (p := fun pindex => !tree.contains pindex)
              (l := tree.path pindexNew)
            rw [← whole] at member
            rcases List.mem_append.mp member with before | after
            · have fine := List.find?_eq_none.mp first low before
              rw [IndexTree.unusable, Bool.or_eq_true, not_or, Bool.not_eq_true] at fine
              exact fine.1
            · obtain ⟨high, -, contained, lower⟩ :=
                searching.rooted.leveled.mem_path_of_mem_dropWhile newKnown after
              have active := searching.contains_iff.mp (by simpa using contained)
              exact absurd (searching.rooted.mem_trans searching.tipKnown lower active) outside
      | some pindexTest =>
          have member := List.mem_of_find?_eq_some first
          have ancestor := inChain pindexTest member
          have outside : pindexTest ∉ tree.path tip := by
            intro active
            have absent := List.mem_takeWhile_imp member
            rw [searching.contains_iff.mpr active] at absent
            cases absent
          have failed : (tree.entry pindexTest).nStatus.failed = true := by
            have bad := List.find?_some first
            have stored := (searching.linked pindexNew newKnown
              (searching.candidates pindexNew candidate).2 pindexTest ancestor).2
            rw [IndexTree.unusable, stored, Bool.not_true, Bool.or_false] at bad
            exact bad
          have next := searching.drop fitting candidate ancestor outside failed
          have fewer : (tree.dropChain pindexNew pindexTest).setBlockIndexCandidates.length ≤
              rounds := by
            refine Nat.le_of_lt_succ (lt_of_lt_of_le ?_ enough)
            refine List.length_filter_lt_length_iff_exists.mpr ⟨pindexNew, candidate, ?_⟩
            have dropped : pindexNew ∈ (tree.path pindexNew).takeWhile (· ≠ pindexTest) ∨
                pindexNew = pindexTest := searching.rooted.leveled.mem_takeWhile_or_eq newKnown
            rw [Bool.and_eq_true, Bool.not_eq_true', bne_iff_ne, ← Bool.not_eq_true,
              List.contains_iff_mem]
            rintro ⟨notAbove, different⟩
            exact dropped.elim notAbove different
          obtain ⟨found, target, loop, moves, last, isTarget, kept⟩ := ih next fewer
          refine ⟨found, target, ?_, ?_, last, isTarget, ?_⟩
          · dsimp only
            rw [if_pos]
            · exact loop
            · rw [List.all_eq_true]
              intro low inside
              rcases List.mem_append.mp inside with before | only
              · exact linked low (inChain low ((List.takeWhile_sublist _).subset before))
              · rw [List.mem_singleton.mp only]
                exact linked pindexTest ancestor
          · exact Relation.ReflTransGen.head (.drop candidate ancestor outside failed) moves
          · intro other member usable
            obtain ⟨stays, still⟩ :=
              searching.usable_dropChain candidate ancestor outside failed member usable
            exact kept other stays still

/-! ## `ActivateBestChainStep` -/

/-- **The disconnecting loop** ends at the fork. -/
theorem Searching.disconnectLoop (fitting : Fitting fits) {rounds : Nat}
    (searching : ctx.Searching sound fits tree tip best) {fork : Uint256}
    (inside : fork ∈ tree.path tip)
    (succeeds : ∀ low ∈ tree.path tip, low ∉ tree.path fork → outcomes.disconnect low = true)
    (enough : tree.height tip ≤ rounds + tree.height fork) :
    ∃ after, IndexTree.disconnectLoop outcomes (some fork) rounds tree = some (after, true) ∧
      ctx.Moves outcomes (tree, tip) (after, fork) ∧
      ctx.Searching sound fits after fork best ∧
      after.setBlockIndexCandidates = tree.setBlockIndexCandidates ∧ after.entry = tree.entry := by
  have leveled := searching.rooted.leveled
  have forkKnown := searching.rooted.known_of_mem searching.tipKnown inside
  induction rounds generalizing tree tip with
  | zero =>
      have same : fork = tip := leveled.eq_of_level_eq searching.tipKnown inside
        (searching.rooted.self_mem searching.tipKnown)
        (le_antisymm (leveled.level_le searching.tipKnown inside) (by omega))
      subst same
      exact ⟨tree, rfl, Relation.ReflTransGen.refl, searching, rfl, rfl⟩
  | succ rounds ih =>
      unfold IndexTree.disconnectLoop
      rw [searching.isTip]
      rcases eq_or_ne tip fork with rfl | different
      · rw [if_pos (Or.inr rfl)]
        exact ⟨tree, rfl, Relation.ReflTransGen.refl, searching, rfl, rfl⟩
      · rw [if_neg (by simp [different])]
        obtain ⟨up, parent⟩ : ∃ up, tree.parent tip = some up := by
          rw [← Option.ne_none_iff_exists']
          intro root
          rw [IndexTree.path, ParentTree.path_root root] at inside
          exact different (List.mem_singleton.mp inside).symm
        have pathTip := searching.rooted.path_child searching.tipKnown parent
        have upKnown := (leveled.child tip up searching.tipKnown parent).1
        have higher : tree.height tip = tree.height up + 1 :=
          (leveled.child tip up searching.tipKnown parent).2
        have tipApart : tip ∉ tree.path fork := by
          intro lower
          have back := leveled.level_le forkKnown lower
          have forth := leveled.level_le searching.tipKnown inside
          exact different (leveled.eq_of_level_eq searching.tipKnown
            (searching.rooted.self_mem searching.tipKnown) inside (le_antisymm back forth))
        have next := searching.disconnect fitting parent
        have inUp : fork ∈ tree.path up := by
          rw [pathTip] at inside
          exact (List.mem_cons.mp inside).resolve_left different.symm
        obtain ⟨after, loop, moves, last, candidates, entry⟩ := ih next inUp
          (fun low member apart => succeeds low
              (by rw [pathTip]; exact List.mem_cons_of_mem _ member)
            apart) (by change tree.height up ≤ rounds + tree.height fork; omega) leveled forkKnown
        refine ⟨after, ?_, Relation.ReflTransGen.head (.disconnect parent) moves, last, candidates,
          entry⟩
        have step : tree.disconnectTip outcomes = some (tree.setTip (some up), true) := by
          unfold IndexTree.disconnectTip
          rw [searching.isTip]
          dsimp only
          rw [succeeds tip (searching.rooted.self_mem searching.tipKnown) tipApart, parent]
          rfl
        rw [step]
        exact loop

/-- A branch that goes up from the tip: each block is linked and can be tried. -/
def Extends (tree : IndexTree) : Uint256 → List Uint256 → Prop
  | _, [] => True
  | tip, next :: rest => next ∈ tree.hashes ∧ tree.parent next = some tip ∧ Linked tree next ∧
      (tree.entry next).nStatus.failed = false ∧ Extends tree next rest

/-- The block that was tried last comes after the tip, which has no more work than the old one. -/
structure Stopped (pindexOldTip : Option Uint256) (tree : IndexTree) (tip last pindex : Uint256) :
    Prop where
  parent : tree.parent pindex = some last
  short : last = tip ∨ ∃ old, pindexOldTip = some old ∧
    ¬ (tree.entry old).nChainWork < (tree.entry last).nChainWork

/-- How the loop over blocks ends. -/
inductive Ended (outcomes : TipOutcomes) (pindexOldTip : Option Uint256) (branch : List Uint256)
    (tree after : IndexTree) (tip last : Uint256) : Progress → Prop
  | onward (top : last = branch.getLastD tip) :
    Ended outcomes pindexOldTip branch tree after tip last
      .onward
  | better (member : last ∈ branch) (more : ∀ old, pindexOldTip = some old →
      (tree.entry old).nChainWork < (tree.entry last).nChainWork) :
      Ended outcomes pindexOldTip branch tree after tip last .better
  | rejected {pindex : Uint256} (member : pindex ∈ branch)
      (stopped : Stopped pindexOldTip tree tip last pindex)
      (rejects : outcomes.connect pindex = .invalid)
      (before : (tree.entry pindex).nStatus.failed = false)
      (marked : (after.entry pindex).nStatus.failedValid = true) :
      Ended outcomes pindexOldTip branch tree after tip last (.invalid pindex)
  | corrupted {pindex : Uint256} (member : pindex ∈ branch)
      (stopped : Stopped pindexOldTip tree tip last pindex)
      (rejects : outcomes.connect pindex = .corrupted) :
      Ended outcomes pindexOldTip branch tree after tip last (.invalid pindex)
  | failed {pindex : Uint256} (member : pindex ∈ branch)
      (stopped : Stopped pindexOldTip tree tip last pindex)
      (error : outcomes.connect pindex = .error) :
      Ended outcomes pindexOldTip branch tree after tip last .failed

/-- A branch extends the tip as long as no new block is marked. -/
theorem Extends.unmarked {after : IndexTree} (advances : tree.Advances after)
    (failed : ∀ hash, (after.entry hash).nStatus.failed = (tree.entry hash).nStatus.failed)
    {branch : List Uint256} (extends_ : Extends tree tip branch) : Extends after tip branch := by
  induction branch generalizing tip with
  | nil => trivial
  | cons next rest ih =>
      obtain ⟨known, parent, linked, unfailed, later⟩ := extends_
      refine ⟨advances.hashes ▸ known, ?_, advances.linked linked, (failed next).trans unfailed,
        ih later⟩
      rw [advances.parent]
      exact parent

/-- The blocks before the last one were connected, without more work than the old tip. -/
theorem Stopped.cons {pindexOldTip : Option Uint256} {next last pindex : Uint256}
    {middle : IndexTree} (advances : tree.Advances middle)
    (less : ∃ old, pindexOldTip = some old ∧
      ¬ (tree.entry old).nChainWork < (tree.entry next).nChainWork)
    (stopped : Stopped pindexOldTip middle next last pindex) :
    Stopped pindexOldTip tree tip last pindex := by
  refine ⟨by rw [← advances.parent]; exact stopped.parent, Or.inr ?_⟩
  rcases stopped.short with rfl | ⟨old, isOld, notMore⟩
  · exact less
  · rw [advances.nChainWork, advances.nChainWork] at notMore
    exact ⟨old, isOld, notMore⟩

/-- The blocks before the end of the loop were connected. -/
theorem Ended.cons {pindexOldTip : Option Uint256} {next last : Uint256} {rest : List Uint256}
    {middle after : IndexTree} {progress : Progress} (advances : tree.Advances middle)
    (failed : ∀ hash, (middle.entry hash).nStatus.failed = (tree.entry hash).nStatus.failed)
    (less : ∃ old, pindexOldTip = some old ∧
      ¬ (tree.entry old).nChainWork < (tree.entry next).nChainWork)
    (ended : Ended outcomes pindexOldTip rest middle after next last progress) :
    Ended outcomes pindexOldTip (next :: rest) tree after tip last progress := by
  cases ended with
  | onward top =>
      refine .onward (top.trans ?_)
      rw [List.getLastD_cons]
  | better member more =>
      refine .better (List.mem_cons_of_mem _ member) fun old isOld => ?_
      rw [← advances.nChainWork, ← advances.nChainWork]
      exact more old isOld
  | rejected member stopped rejects before marked =>
      exact .rejected (List.mem_cons_of_mem _ member) (stopped.cons advances less) rejects
        ((failed _).symm.trans before) marked
  | corrupted member stopped rejects =>
      exact .corrupted (List.mem_cons_of_mem _ member) (stopped.cons advances less) rejects
  | failed member stopped error =>
      exact .failed (List.mem_cons_of_mem _ member) (stopped.cons advances less) error

/-- Some candidate is left after the pruning. -/
theorem pruneBlockIndexCandidates_eq_some {kept : Uint256} (isTip : tree.tip = some tip)
    (member : kept ∈ (ctx.prunedAt tree tip).setBlockIndexCandidates) :
    ctx.pruneBlockIndexCandidates tree = some (ctx.prunedAt tree tip) := by
  unfold pruneBlockIndexCandidates
  rw [isTip]
  exact if_neg fun empty => List.ne_nil_of_mem member (List.isEmpty_iff.mp empty)

/-- **The loop over the blocks of a branch.** -/
theorem Searching.connectBlocks (fitting : Fitting fits) (pindexOldTip : Option Uint256)
    {branch : List Uint256} (searching : ctx.Searching sound fits tree tip best)
    (extends_ : Extends tree tip branch)
    (judged : ∀ next ∈ branch, (outcomes.connect next = .connected → sound next) ∧
      (outcomes.connect next = .invalid → ¬ sound next)) :
    ∃ after last choice progress,
      ctx.connectBlocks outcomes pindexOldTip branch tree = some (after, progress) ∧
      ctx.Moves outcomes (tree, tip) (after, last) ∧
      ctx.Searching sound fits after last choice ∧ tip ∈ tree.path last ∧
      (choice = best ∨ choice ∈ tree.path last) ∧
      Ended outcomes pindexOldTip branch tree after tip last progress := by
  induction branch generalizing tree tip best with
  | nil =>
      exact ⟨tree, tip, best, .onward, rfl, Relation.ReflTransGen.refl, searching,
        searching.rooted.self_mem searching.tipKnown, Or.inl rfl, .onward rfl⟩
  | cons next rest ih =>
      obtain ⟨known, parent, linked, unfailed, later⟩ := extends_
      have here := searching.rooted.self_mem searching.tipKnown
      unfold TreeContext.connectBlocks connectTip
      rw [searching.isTip, if_neg (not_not.mpr parent)]
      cases result : outcomes.connect next with
      | connected =>
          obtain ⟨choice, pruned, isChoice⟩ :=
            searching.connect outcomes fitting known parent linked unfailed
              ((judged next List.mem_cons_self).1 result)
          have move : ctx.Move outcomes (tree, tip)
              (ctx.prunedAt (ctx.connected outcomes tree next) next, next) :=
            .connect known parent linked unfailed result
          have advances := Move.advances ctx outcomes move
          have failed : ∀ hash, ((ctx.prunedAt (ctx.connected outcomes tree next)
              next).entry hash).nStatus.failed = (tree.entry hash).nStatus.failed :=
            fun _ => failed_connected
          have prunes : ctx.pruneBlockIndexCandidates (ctx.connected outcomes tree next) =
              some (ctx.prunedAt (ctx.connected outcomes tree next) next) :=
            pruneBlockIndexCandidates_eq_some pruned.isTip pruned.isBest
          have work : ∀ hash, ((ctx.prunedAt (ctx.connected outcomes tree next)
              next).entry hash).nChainWork = (tree.entry hash).nChainWork := advances.nChainWork
          have self := Relation.ReflTransGen.single move
          have below : tip ∈ tree.path next := by
            rw [searching.rooted.path_child known parent]
            exact List.mem_cons_of_mem _ here
          change ∃ after last choice progress, (do
            let pruned ← ctx.pruneBlockIndexCandidates (ctx.connected outcomes tree next)
            if pindexOldTip.all fun old =>
                decide ((pruned.entry old).nChainWork < (pruned.entry next).nChainWork) then
              some (pruned, Progress.better)
            else ctx.connectBlocks outcomes pindexOldTip rest pruned) = some (after, progress) ∧ _
          rw [prunes]
          dsimp only [bind, Option.bind]
          split
          · rename_i more
            refine ⟨_, next, choice, .better, rfl, self, pruned, below, ?_, ?_⟩
            · rcases isChoice with rfl | rfl
              · exact Or.inl rfl
              · exact Or.inr (searching.rooted.self_mem known)
            · refine .better List.mem_cons_self fun old isOld => ?_
              rw [isOld, Option.all_some, decide_eq_true_eq, work, work] at more
              exact more
          · rename_i notMore
            have less : ∃ old, pindexOldTip = some old ∧
                ¬ (tree.entry old).nChainWork < (tree.entry next).nChainWork := by
              cases pindexOldTip with
              | none => exact absurd rfl notMore
              | some old =>
                  rw [Option.all_some, decide_eq_true_eq, work, work] at notMore
                  exact ⟨old, rfl, notMore⟩
            obtain ⟨after, last, chosen, progress, loop, moves, final, nextBelow,
                isChosen, ended⟩ :=
              ih pruned (later.unmarked advances failed)
                fun other member => judged other (List.mem_cons_of_mem _ member)
            have lastKnown : last ∈ tree.hashes := by
              rw [← advances.hashes, ← (Moves.advances ctx outcomes moves).hashes]
              exact final.tipKnown
            rw [advances.path] at nextBelow isChosen
            refine ⟨after, last, chosen, progress, loop, self.trans moves, final,
              searching.rooted.mem_trans lastKnown below nextBelow, ?_,
              ended.cons advances failed less⟩
            rcases isChosen with rfl | member
            · rcases isChoice with rfl | rfl
              · exact Or.inl rfl
              · exact Or.inr nextBelow
            · exact Or.inr member
      | invalid =>
          have move : ctx.Move outcomes (tree, tip)
              ((tree.record (outcomes.recorded next)).invalidBlockFound next, tip) :=
            .reject known parent linked unfailed result
          refine ⟨_, tip, best, .invalid next, rfl, Relation.ReflTransGen.single move,
            searching.reject fitting known ((judged next List.mem_cons_self).2 result) _, here,
            Or.inl rfl, ?_⟩
          exact .rejected List.mem_cons_self ⟨parent, Or.inl rfl⟩ result unfailed
            (IndexTree.failedValid_invalidBlockFound.mpr (Or.inr rfl))
      | corrupted =>
          exact ⟨_, tip, best, .invalid next, rfl, Relation.ReflTransGen.single (.record _),
            searching.record fitting _, here, Or.inl rfl,
            .corrupted List.mem_cons_self ⟨parent, Or.inl rfl⟩ result⟩
      | error =>
          exact ⟨_, tip, best, .failed, rfl, Relation.ReflTransGen.single (.record _),
            searching.record fitting _, here, Or.inl rfl,
            .failed List.mem_cons_self ⟨parent, Or.inl rfl⟩ result⟩

end TreeContext

end GiantCore
