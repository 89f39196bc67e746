import GiantCore.Validation.CheckBlock

/-! # Block headers

The block index as a tree, with the rules on a header that read it: `CheckWork`,
`ContextualCheckBlockHeader` and `AcceptBlockHeader` of `main.cpp`, and the
checkpoints of `checkpoints.cpp`.

A block has to be later than the median of the eleven blocks before it. A median
is the time of one of them, so no block of a chain is earlier than its first.
-/

namespace GiantCore

open CValidationState

/-- `REJECT_OBSOLETE`. -/
def rejectObsolete : UInt8 := 0x11

/-- `REJECT_CHECKPOINT`. -/
def rejectCheckpoint : UInt8 := 0x43

/-- The fields of a block index that the rules on later headers read. -/
structure HeaderIndex where
  hash : Uint256
  nHeight : Int
  nTime : Int
  nVersion : Int
  deriving DecidableEq, Repr

/-- A block index with its ancestors, which `pprev` leads to. -/
structure IndexNode where
  header : HeaderIndex
  ancestors : List HeaderIndex := []
  deriving DecidableEq, Repr

namespace IndexNode

variable (pindex : IndexNode)

/-- The block itself and its ancestors. -/
def branch : List HeaderIndex := pindex.header :: pindex.ancestors

/-- `pprev`. -/
def pprev : Option IndexNode :=
  match pindex.ancestors with
  | [] => none
  | header :: ancestors => some ⟨header, ancestors⟩

/-- `nMedianTimeSpan`. -/
def nMedianTimeSpan : Nat := 11

/-- The times of the block and of the ten blocks before it, in order. -/
def lastTimes : List Int :=
  ((pindex.branch.take nMedianTimeSpan).map HeaderIndex.nTime).insertionSort (· ≤ ·)

def getMedianTimePast : Int := pindex.lastTimes[pindex.lastTimes.length / 2]?.getD 0

/-- `IsSuperMajority`, with the number of blocks to look at. -/
def isSuperMajority (nToCheck : Nat) (minVersion : Int) (nRequired : Nat) : Bool :=
  decide (nRequired ≤ ((pindex.branch.take nToCheck).filter fun header =>
    decide (header.nVersion ≥ minVersion)).length)

end IndexNode

/-- `mapBlockIndex`, with the bits of `nStatus` that are read. -/
structure BlockTree where
  mapBlockIndex : Uint256 → Option IndexNode
  /-- `BLOCK_FAILED_MASK`. -/
  failed : Uint256 → Bool
  /-- `BLOCK_HAVE_DATA`. -/
  haveData : Uint256 → Bool

/-- What the rules on headers read besides the tree. -/
structure HeaderContext where
  node : NodeContext
  hashGenesisBlock : Uint256
  /-- The argument `-maxreorg`. -/
  maxReorg : Option Int
  /-- `Checkpoints::fEnabled`. -/
  fCheckpoints : Bool
  /-- `mapCheckpoints`, by height. -/
  mapCheckpoints : List (Int × Uint256)
  /-- `GetNextWorkRequired`. -/
  getNextWorkRequired : IndexNode → CBlock → UInt32
  /-- Whether the difficulty of a block, as a floating point number, is off by more
  than half of itself from the one required. -/
  isFarOff : UInt32 → UInt32 → Bool

section

variable (ctx : HeaderContext) (tree : BlockTree)

/-- `Checkpoints::CheckBlock`. -/
def HeaderContext.matchesCheckpoint (nHeight : Int) (hash : Uint256) (exact : Bool) : Bool :=
  if !ctx.fCheckpoints then true
  else match ctx.mapCheckpoints.find? fun entry => entry.1 == nHeight with
    | none => !exact
    | some entry => hash == entry.2

/-- `GetLastCheckpoint`. -/
def HeaderContext.getLastCheckpoint : Option IndexNode :=
  if !ctx.fCheckpoints then none
  else ctx.mapCheckpoints.reverse.findSome? fun entry => tree.mapBlockIndex entry.2

/-- `CheckWork`. Early proof-of-work blocks may miss the required difficulty. -/
def checkWork (block : CBlock) (pindexPrev : Option IndexNode) : Bool :=
  match pindexPrev with
  | none => false
  | some pindexPrev =>
      let nBitsRequired := ctx.getNextWorkRequired pindexPrev block
      if ctx.node.params.networkID ≠ .regtest ∧ block.isProofOfWork = true ∧
          pindexPrev.header.nHeight + 1 ≤ 68589 then
        !ctx.isFarOff block.nBits nBitsRequired
      else block.nBits == nBitsRequired

/-- The fork of a header is not too deep. -/
def checkReorgDepth (state : CValidationState) (nHeight : Int) : Except CValidationState Unit :=
  require (!decide (ctx.node.height - nHeight ≥
    ctx.maxReorg.getD ctx.node.params.nMaxReorganizationDepth)) (state.doS 1)

/-- The header is later than the median of the blocks before it. -/
def checkMedianTime (block : CBlock) (state : CValidationState) (pindexPrev : IndexNode) :
    Except CValidationState Unit :=
  require (!(decide (block.nTime ≤ pindexPrev.getMedianTimePast) &&
    ctx.node.params.networkID != .regtest)) (state.invalid rejectInvalid "time-too-old")

/-- The header is on the chain of the checkpoints. -/
def checkCheckpoints (block : CBlock) (state : CValidationState) (nHeight : Int) :
    Except CValidationState Unit := do
  require (ctx.matchesCheckpoint nHeight block.hash false)
    (state.doS 100 rejectCheckpoint "checkpoint mismatch")
  require (!(ctx.getLastCheckpoint tree).any fun pcheckpoint =>
    decide (nHeight < pcheckpoint.header.nHeight)) (state.doS 0)

/-- Blocks below a version are refused once the network has upgraded to it. -/
def checkVersion (block : CBlock) (state : CValidationState) (pindexPrev : IndexNode)
    (version : Int) : Except CValidationState Unit :=
  require (!(decide (block.nVersion < version) &&
    pindexPrev.isSuperMajority ctx.node.params.nToCheckBlockUpgradeMajority version
      ctx.node.params.nRejectBlockOutdatedMajority)) (state.invalid rejectObsolete "bad-version")

/-- `ContextualCheckBlockHeader` of a block that is not the first one. -/
def checkHeaderAfter (block : CBlock) (state : CValidationState) (pindexPrev : IndexNode) :
    Except CValidationState Unit := do
  let nHeight := pindexPrev.header.nHeight + 1
  require (!(ctx.node.params.networkID == .regtest &&
    block.nBits != ctx.getNextWorkRequired pindexPrev block))
    (state.doS 100 rejectInvalid "bad-diffbits")
  checkReorgDepth ctx state nHeight
  checkMedianTime ctx block state pindexPrev
  checkCheckpoints ctx tree block state nHeight
  checkVersion ctx block state pindexPrev 2
  checkVersion ctx block state pindexPrev 3
  checkVersion ctx block state pindexPrev 5

/-- `ContextualCheckBlockHeader`, or nothing where its assertion fails. -/
def contextualCheckBlockHeader (block : CBlock) (state : CValidationState)
    (pindexPrev : Option IndexNode) : Option (Except CValidationState Unit) :=
  if block.hash = ctx.hashGenesisBlock then some (.ok ())
  else pindexPrev.map (checkHeaderAfter ctx tree block state)

/-- The block index of a new block. -/
def BlockTree.newIndex (block : CBlock) : IndexNode :=
  match tree.mapBlockIndex block.hashPrevBlock with
  | none => { header := ⟨block.hash, 0, block.nTime, block.nVersion⟩ }
  | some pprev =>
      { header := ⟨block.hash, pprev.header.nHeight + 1, block.nTime, block.nVersion⟩
        ancestors := pprev.branch }

/-- `AddToBlockIndex`. -/
def BlockTree.addToBlockIndex (block : CBlock) : BlockTree × IndexNode :=
  match tree.mapBlockIndex block.hash with
  | some pindex => (tree, pindex)
  | none =>
      ({ mapBlockIndex := fun hash =>
          if hash = block.hash then some (tree.newIndex block) else tree.mapBlockIndex hash
         failed := fun hash => if hash = block.hash then false else tree.failed hash
         haveData := fun hash => if hash = block.hash then false else tree.haveData hash },
        tree.newIndex block)

/-- `AcceptBlockHeader`, or nothing where an assertion fails. A new header whose
parent has failed is refused: the branch that reconsiders the parent asks for a
block index that a new header does not have. `CheckBlockHeader` is called
without the test of the work, and has no other. -/
def acceptBlockHeader (block : CBlock) (state : CValidationState) :
    Option (Except CValidationState (BlockTree × IndexNode)) :=
  match tree.mapBlockIndex block.hash with
  | some pindex =>
      some (if tree.failed block.hash then .error (state.invalid 0 "duplicate")
        else .ok (tree, pindex))
  | none =>
      if block.hash = ctx.hashGenesisBlock then some (.ok (tree.addToBlockIndex block))
      else match tree.mapBlockIndex block.hashPrevBlock with
        | none => some (.error (state.doS 0 0 "bad-prevblk"))
        | some pindexPrev =>
            if tree.failed block.hashPrevBlock then
              some (.error (state.doS 100 rejectInvalid "bad-prevblk"))
            else (contextualCheckBlockHeader ctx tree block state (some pindexPrev)).map
              fun accepted => accepted.map fun _ => tree.addToBlockIndex block

end

/-! ## Times on a chain -/

/-- The branches that the rules on headers let grow from a first block. Every
header may have come to a node in another state. -/
inductive HeaderChain (params : CChainParams) : IndexNode → Prop where
  | genesis (hash : Uint256) (nVersion : Int) :
      HeaderChain params { header := ⟨hash, 0, params.nGenesisTime, nVersion⟩ }
  | extend {pprev : IndexNode} (ctx : HeaderContext) (tree : BlockTree) (block : CBlock)
      (state : CValidationState) (chain : HeaderChain params pprev)
      (same : ctx.node.params = params)
      (accepted : checkHeaderAfter ctx tree block state pprev = .ok ()) :
      HeaderChain params
        { header := ⟨block.hash, pprev.header.nHeight + 1, block.nTime, block.nVersion⟩
          ancestors := pprev.branch }

/-- The median is the time of a block of the branch. -/
theorem IndexNode.getMedianTimePast_mem (pindex : IndexNode) :
    ∃ header ∈ pindex.branch, header.nTime = pindex.getMedianTimePast := by
  have nonempty : 0 < pindex.lastTimes.length := by
    rw [lastTimes, List.length_insertionSort]
    simp [branch, nMedianTimeSpan]
  have inside : pindex.lastTimes.length / 2 < pindex.lastTimes.length :=
    Nat.div_lt_self nonempty (by decide)
  have found : pindex.getMedianTimePast = pindex.lastTimes[pindex.lastTimes.length / 2] := by
    rw [getMedianTimePast, List.getElem?_eq_getElem inside, Option.getD_some]
  have member : pindex.getMedianTimePast ∈ pindex.lastTimes := found ▸ List.getElem_mem inside
  rw [lastTimes, List.mem_insertionSort, List.mem_map] at member
  obtain ⟨header, taken, time⟩ := member
  exact ⟨header, List.mem_of_mem_take taken, time⟩

/-- A header that is accepted is later than the median of the blocks before it. -/
theorem medianTimePast_lt_of_accepted {ctx : HeaderContext} {tree : BlockTree} {block : CBlock}
    {state : CValidationState} {pprev : IndexNode}
    (network : ctx.node.params.networkID ≠ .regtest)
    (accepted : checkHeaderAfter ctx tree block state pprev = .ok ()) :
    pprev.getMedianTimePast < block.nTime := by
  simp only [checkHeaderAfter, bind_eq_ok] at accepted
  obtain ⟨-, -, time, -⟩ := accepted
  rw [checkMedianTime, require_eq_ok] at time
  simpa [network] using time

/-- A header that is accepted is later than some block before it. -/
theorem exists_time_lt_of_accepted {ctx : HeaderContext} {tree : BlockTree} {block : CBlock}
    {state : CValidationState} {pprev : IndexNode}
    (network : ctx.node.params.networkID ≠ .regtest)
    (accepted : checkHeaderAfter ctx tree block state pprev = .ok ()) :
    ∃ header ∈ pprev.branch, header.nTime < block.nTime := by
  obtain ⟨header, member, median⟩ := pprev.getMedianTimePast_mem
  exact ⟨header, member, median ▸ medianTimePast_lt_of_accepted network accepted⟩

namespace HeaderChain

variable {params : CChainParams} {pindex : IndexNode}

/-- No block of a chain is earlier than the first. -/
theorem genesisTime_le (network : params.networkID ≠ .regtest) (chain : HeaderChain params pindex) :
    ∀ header ∈ pindex.branch, params.nGenesisTime ≤ header.nTime := by
  induction chain with
  | genesis hash nVersion =>
      intro header member
      rw [List.mem_singleton.mp member]
  | extend ctx tree block state chain same accepted ih =>
      have later := exists_time_lt_of_accepted (same ▸ network) accepted
      obtain ⟨earlier, inBranch, before⟩ := later
      intro header member
      rcases List.mem_cons.mp member with rfl | old
      · exact Int.le_trans (ih earlier inBranch) (Int.le_of_lt before)
      · exact ih header old

/-- Heights on a chain do not exceed that of its last block. -/
theorem nHeight_le (chain : HeaderChain params pindex) :
    ∀ header ∈ pindex.branch, header.nHeight ≤ pindex.header.nHeight := by
  induction chain with
  | genesis hash nVersion =>
      intro header member
      rw [List.mem_singleton.mp member]
  | extend ctx tree block state chain same accepted ih =>
      intro header member
      rcases List.mem_cons.mp member with rfl | old
      · exact Int.le_refl _
      · exact Int.le_trans (ih header old) (Int.le_add_one (Int.le_refl _))

end HeaderChain

/-- The first block of the main network. -/
def genesisNode : IndexNode :=
  { header := ⟨0, 0, CChainParams.main.nGenesisTime, 1⟩ }

theorem genesisNode_chain : HeaderChain CChainParams.main genesisNode :=
  .genesis 0 1

/-- The header rules of the examples, without checkpoints. -/
def HeaderContext.mainHeaders (tipHeight : Int) : HeaderContext where
  node := NodeContext.mainNode tipHeight
  hashGenesisBlock := 0
  maxReorg := none
  fCheckpoints := false
  mapCheckpoints := []
  getNextWorkRequired _ _ := 0x1e0fffff
  isFarOff nBits nBitsRequired := nBits != nBitsRequired

/-- A tree with one block. -/
def BlockTree.single (pindex : IndexNode) : BlockTree where
  mapBlockIndex hash := if hash = pindex.header.hash then some pindex else none
  failed _ := false
  haveData _ := true

end GiantCore
