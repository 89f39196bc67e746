import GiantCore.BlockIndex.Tree

/-! # The choice of the active chain

The functions of `main.cpp` that move the active chain to the best candidate and mark the blocks
that turn out to be invalid. What validation says of a block is a parameter of each call. A value
`none` stands for an assertion that fails or a pointer that is null.

`setBlockIndexCandidates` is ordered by the comparator. Its last entry is the one that sorts
before no other, and those that sort before the tip are the first ones. `pindexBestInvalid` and
`pindexBestHeader` only serve warnings and downloads and are left out.
-/

namespace GiantCore

/-- What the block index reads and does not change. -/
structure TreeContext where
  hashGenesisBlock : Uint256
  /-- The address of an entry; no two have the same. -/
  address : Uint256 → Nat
  address_injective : Function.Injective address

/-- The money that `ConnectBlock` counts in an entry. -/
structure SupplyRecord where
  nMint : CAmount
  nMoneySupply : CAmount
  mapZerocoinSupply : CoinDenomination → Int
  vMintDenominationsInBlock : List CoinDenomination

/-- What `ConnectTip` says of a block. -/
inductive ConnectResult where
  | connected
  | invalid
  /-- Invalid, but the block may have been damaged on the way. -/
  | corrupted
  /-- An error of the system. -/
  | error
  deriving DecidableEq, Repr

/-- What the calls of `ConnectTip` and `DisconnectTip` come to. -/
structure TipOutcomes where
  connect : Uint256 → ConnectResult
  disconnect : Uint256 → Bool := fun _ => true
  nUndoPos : Uint256 → Nat := fun _ => 0
  /-- What the attempt to connect the first block records for the second one. -/
  recorded : Uint256 → Uint256 → Option SupplyRecord := fun _ _ => none

/-- How far `ActivateBestChainStep` came. -/
inductive Progress where
  | onward
  /-- The tip has more work than the old one. -/
  | better
  | invalid (pindex : Uint256)
  | failed
  deriving DecidableEq, Repr

namespace TreeContext

variable (ctx : TreeContext) (tree : IndexTree)

/-! ## The best candidate -/

/-- The last entry of `setBlockIndexCandidates`. -/
def bestCandidate : Option Uint256 :=
  tree.setBlockIndexCandidates.find? fun pa =>
    tree.setBlockIndexCandidates.all fun pb => !tree.workComparator ctx.address pa pb

end TreeContext

namespace IndexTree

variable (tree : IndexTree)

/-- A block that keeps a chain from being used: invalid, or its data is missing. -/
def unusable (pindex : Uint256) : Bool :=
  (tree.entry pindex).nStatus.failed || !(tree.entry pindex).nStatus.haveData

/-- The assertion of `FindMostWorkChain`. -/
def linkedOrFirst (pindex : Uint256) : Bool :=
  (tree.entry pindex).nChainTx != 0 || tree.height pindex == 0

/-- The chain above an unusable block is taken out of the candidates. -/
def dropChain (pindexNew pindexTest : Uint256) : IndexTree :=
  let above := (tree.path pindexNew).takeWhile (· ≠ pindexTest)
  let fFailedChain := (tree.entry pindexTest).nStatus.failed
  { tree with
    entry := fun pindex =>
      if fFailedChain && above.contains pindex then
        { tree.entry pindex with
          nStatus := { (tree.entry pindex).nStatus with failedChild := true } }
      else tree.entry pindex
    mapBlocksUnlinked := if fFailedChain then tree.mapBlocksUnlinked
      else tree.mapBlocksUnlinked ++
        above.filterMap fun pindex => (tree.parent pindex).map fun pprev => (pprev, pindex)
    setBlockIndexCandidates := tree.setBlockIndexCandidates.filter fun pindex =>
      !above.contains pindex && pindex != pindexTest }

/-- `InvalidBlockFound` for a block whose data is not in doubt. -/
def invalidBlockFound (pindex : Uint256) : IndexTree :=
  { tree.modify pindex fun entry =>
      { entry with nStatus := { entry.nStatus with failedValid := true } } with
    setBlockIndexCandidates := tree.setBlockIndexCandidates.filter (· ≠ pindex) }

/-- The supply that is recorded for entries. -/
def record (recorded : Uint256 → Option SupplyRecord) : IndexTree :=
  { tree with entry := fun pindex => (recorded pindex).elim (tree.entry pindex) fun supply =>
      { tree.entry pindex with
        nMint := supply.nMint
        nMoneySupply := supply.nMoneySupply
        mapZerocoinSupply := supply.mapZerocoinSupply
        vMintDenominationsInBlock := supply.vMintDenominationsInBlock } }

/-- Disconnecting the first block would follow a null pointer. -/
def disconnectTip (outcomes : TipOutcomes) : Option (IndexTree × Bool) :=
  match tree.tip with
  | none => none
  | some pindexDelete =>
      if !outcomes.disconnect pindexDelete then some (tree, false)
      else match tree.parent pindexDelete with
        | none => none
        | some pprev => some (tree.setTip (some pprev), true)

/-- The active blocks down to the fork are disconnected. -/
def disconnectLoop (outcomes : TipOutcomes) (pindexFork : Option Uint256) :
    Nat → IndexTree → Option (IndexTree × Bool)
  | 0, tree => some (tree, true)
  | rounds + 1, tree =>
      if tree.tip = none ∨ tree.tip = pindexFork then some (tree, true)
      else do
        let (next, disconnected) ← tree.disconnectTip outcomes
        if disconnected then disconnectLoop outcomes pindexFork rounds next else some (next, false)

end IndexTree

namespace TreeContext

variable (ctx : TreeContext)

/-- `FindMostWorkChain`. Each round takes out a candidate, so there are no more rounds than
candidates. -/
def findMostWorkLoop : Nat → IndexTree → Option (IndexTree × Option Uint256)
  | 0, tree => some (tree, none)
  | rounds + 1, tree =>
      match ctx.bestCandidate tree with
      | none => some (tree, none)
      | some pindexNew =>
          let chain := (tree.path pindexNew).takeWhile fun pindex => !tree.contains pindex
          match chain.find? tree.unusable with
          | none => if chain.all tree.linkedOrFirst then some (tree, some pindexNew) else none
          | some pindexTest =>
              if (chain.takeWhile (· ≠ pindexTest) ++ [pindexTest]).all tree.linkedOrFirst then
                findMostWorkLoop rounds (tree.dropChain pindexNew pindexTest)
              else none

def findMostWorkChain (tree : IndexTree) : Option (IndexTree × Option Uint256) :=
  ctx.findMostWorkLoop tree.setBlockIndexCandidates.length tree

/-- The candidates that sort before the tip are deleted; some must be left. -/
def pruneBlockIndexCandidates (tree : IndexTree) : Option IndexTree :=
  let kept := tree.setBlockIndexCandidates.filter fun pindex =>
    !tree.tip.any fun tip => tree.workComparator ctx.address pindex tip
  if kept.isEmpty then none else some { tree with setBlockIndexCandidates := kept }

/-! ## Moving the tip -/

/-- What `ConnectBlock` does to the entry of a block that it connects. -/
def connectedEntry (pindexNew : Uint256) (nUndoPos : Nat) (entry : TreeEntry) : TreeEntry :=
  if pindexNew = ctx.hashGenesisBlock then entry
  else if !entry.nStatus.haveUndo || !entry.nStatus.isValid .scripts then
    { entry with
      nUndoPos := if entry.nStatus.haveUndo then entry.nUndoPos else nUndoPos
      nStatus := BlockStatus.raiseValidity { entry.nStatus with haveUndo := true } .scripts }
  else entry

def connectTip (outcomes : TipOutcomes) (tree : IndexTree) (pindexNew : Uint256) :
    Option (IndexTree × ConnectResult) :=
  if tree.parent pindexNew ≠ tree.tip then none
  else
    let recorded := tree.record (outcomes.recorded pindexNew)
    match outcomes.connect pindexNew with
    | .connected =>
        some ((recorded.modify pindexNew (ctx.connectedEntry pindexNew
          (outcomes.nUndoPos pindexNew))).setTip (some pindexNew), .connected)
    | .invalid => some (recorded.invalidBlockFound pindexNew, .invalid)
    | result => some (recorded, result)

/-- The loop over the blocks of a batch. -/
def connectBlocks (outcomes : TipOutcomes) (pindexOldTip : Option Uint256) :
    List Uint256 → IndexTree → Option (IndexTree × Progress)
  | [], tree => some (tree, .onward)
  | pindexConnect :: rest, tree => do
      let (next, result) ← ctx.connectTip outcomes tree pindexConnect
      match result with
      | .connected =>
          let pruned ← ctx.pruneBlockIndexCandidates next
          if pindexOldTip.all fun old =>
              decide ((pruned.entry old).nChainWork < (pruned.entry pindexConnect).nChainWork) then
            some (pruned, .better)
          else connectBlocks outcomes pindexOldTip rest pruned
      | .error => some (next, .failed)
      | _ => some (next, .invalid pindexConnect)

/-- The loop over the batches of at most 32 blocks. -/
def connectLoop (outcomes : TipOutcomes) (pindexOldTip : Option Uint256)
    (pindexMostWork : Uint256) : Nat → Int → IndexTree → Option (IndexTree × Progress)
  | 0, _, tree => some (tree, .onward)
  | rounds + 1, nHeight, tree =>
      if nHeight = tree.height pindexMostWork then some (tree, .onward)
      else do
        let nTargetHeight := min (nHeight + 32) (tree.height pindexMostWork)
        let vpindexToConnect := (tree.getAncestor pindexMostWork nTargetHeight).elim []
          fun pindex =>
          (tree.path pindex).takeWhile fun pindexIter => (tree.height pindexIter : Int) ≠ nHeight
        let (next, progress) ← ctx.connectBlocks outcomes pindexOldTip vpindexToConnect.reverse tree
        if progress = .onward then
          connectLoop outcomes pindexOldTip pindexMostWork rounds nTargetHeight next
        else some (next, progress)

def activateBestChainStep (outcomes : TipOutcomes) (tree : IndexTree) (pindexMostWork : Uint256) :
    Option (IndexTree × Progress) := do
  let pindexFork := tree.findFork pindexMostWork
  let nHeight : Int := pindexFork.elim (-1) fun fork => tree.height fork
  let rounds := tree.height pindexMostWork + 1
  let (next, disconnected) ← IndexTree.disconnectLoop outcomes pindexFork tree.vChain.length tree
  if !disconnected then some (next, .failed)
  else ctx.connectLoop outcomes tree.tip pindexMostWork rounds nHeight next

/-- The end of `ActivateBestChain`, with the blocks that were found invalid. -/
structure Activation where
  tree : IndexTree
  succeeds : Bool
  found : List Uint256

/-- `ActivateBestChain`, for at most as many rounds as are given. -/
def activateBestChain (outcomes : TipOutcomes) : Nat → List Uint256 → IndexTree → Option Activation
  | 0, _, _ => none
  | rounds + 1, found, tree => do
      let (searched, pindexMostWork) ← ctx.findMostWorkChain tree
      match pindexMostWork with
      | none => some ⟨searched, true, found⟩
      | some pindexMostWork =>
          if searched.tip = some pindexMostWork then some ⟨searched, true, found⟩
          else
            let (next, progress) ← ctx.activateBestChainStep outcomes searched pindexMostWork
            match progress with
            | .failed => some ⟨next, false, found⟩
            | .invalid pindex =>
                if next.tip = some pindexMostWork then some ⟨next, true, found ++ [pindex]⟩
                else activateBestChain outcomes rounds (found ++ [pindex]) next
            | _ =>
                if next.tip = some pindexMostWork then some ⟨next, true, found⟩
                else activateBestChain outcomes rounds found next

end TreeContext

/-! ## The assertions -/

namespace IndexTree

variable (tree : IndexTree)

/-- An entry and its ancestors, whatever the heights say. -/
def lineage (hash : Uint256) : List Uint256 :=
  Foundation.ParentTree.climb tree.parent tree.hashes.length hash

/-- `pindexFirstInvalid` is not null. -/
def hasInvalid (hash : Uint256) : Bool :=
  (tree.lineage hash).any fun pindex => (tree.entry pindex).nStatus.failedValid

/-- `pindexFirstMissing` is not null. -/
def hasMissing (hash : Uint256) : Bool :=
  (tree.lineage hash).any fun pindex => !(tree.entry pindex).nStatus.haveData

/-- `pindexFirstNotTreeValid` and its like are not null. -/
def hasBelow (nUpTo : BlockValidity) (hash : Uint256) : Bool :=
  (tree.lineage hash).any fun pindex =>
    (tree.parent pindex).isSome && !(tree.entry pindex).nStatus.reaches nUpTo

def foundInUnlinked (hash : Uint256) : Bool :=
  tree.mapBlocksUnlinked.any fun pair => tree.parent hash == some pair.1 && pair.2 == hash

end IndexTree

namespace TreeContext

variable (ctx : TreeContext) (tree : IndexTree)

/-- The assertions of `CheckBlockIndex` on one entry. -/
structure CheckedEntry (tip hash : Uint256) : Prop where
  genesis : tree.parent hash = none →
    hash = ctx.hashGenesisBlock ∧ tree.vChain.head? = some (some hash)
  dataTx : (tree.entry hash).nStatus.haveData = ((tree.entry hash).nTx != 0)
  validTx : (tree.entry hash).nStatus.reaches .transactions = ((tree.entry hash).nTx != 0)
  sequence : (tree.entry hash).nChainTx = 0 → (tree.entry hash).nSequenceId = 0
  missing : tree.hasMissing hash = ((tree.entry hash).nChainTx == 0)
  height : tree.height hash + 1 = (tree.lineage hash).length
  work : ∀ pprev, tree.parent hash = some pprev →
    (tree.entry pprev).nChainWork ≤ (tree.entry hash).nChainWork
  skip : tree.height hash < 2 ∨ ∃ pskip, (tree.entry hash).pskip = some pskip ∧
    tree.height pskip < tree.height hash
  treeValid : tree.hasBelow .tree hash = false
  chainValid : (tree.entry hash).nStatus.reaches .chain = true → tree.hasBelow .chain hash = false
  scriptsValid : (tree.entry hash).nStatus.reaches .scripts = true →
    tree.hasBelow .scripts hash = false
  /-- The failed mask cannot be set for blocks without invalid parents. -/
  failed : tree.hasInvalid hash = false → (tree.entry hash).nStatus.failed = false
  candidate : if !tree.workComparator ctx.address hash tip && !tree.hasMissing hash then
      tree.hasInvalid hash = false → hash ∈ tree.setBlockIndexCandidates
    else hash ∉ tree.setBlockIndexCandidates
  unlinked : if (tree.parent hash).isSome && (tree.entry hash).nStatus.haveData &&
      tree.hasMissing hash then
      tree.hasInvalid hash = false → tree.foundInUnlinked hash = true
    else tree.foundInUnlinked hash = false

/-- **`CheckBlockIndex`.** The search through the tree starts at the only entry without a parent
and meets each entry with all its ancestors on the way. -/
structure CheckedTree (tip : Uint256) : Prop where
  isTip : tree.tip = some tip
  root : ∃ genesis, (tree.hashes.filter fun hash => (tree.parent hash).isNone) = [genesis]
  /-- The whole map is traversed. -/
  traversed : ∀ hash ∈ tree.hashes, (∀ pindex ∈ tree.lineage hash, pindex ∈ tree.hashes) ∧
    ∃ genesis ∈ tree.lineage hash, tree.parent genesis = none
  entries : ∀ hash ∈ tree.hashes, ctx.CheckedEntry tree tip hash

def CheckBlockIndex : Prop :=
  if tree.chainHeight < 0 then tree.hashes.length ≤ 1 else ∃ tip, ctx.CheckedTree tree tip

end TreeContext

end GiantCore
