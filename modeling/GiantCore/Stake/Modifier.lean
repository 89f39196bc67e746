import GiantCore.Chain.Params
import GiantCore.Primitives.Block
import Mathlib.Data.List.Sort

/-! # Stake modifiers

`ComputeNextStakeModifier` and `GetKernelStakeModifier` of `kernel.cpp`, and the modifier
of a zerocoin kernel of `stakeinput.cpp`. The modifier of a block is computed from its
ancestors: 64 of them are selected one after the other, and each contributes a bit. The
previous modifier enters every selection, so it goes back to the modifier of the first
block after genesis, which the source takes from the address of a string.

A kernel is hashed with the modifier of a later block. The walk that looks for it goes
along the active chain, whichever branch the block under validation is on.
-/

namespace GiantCore

/-- The fields of a block index that the stake modifiers read. -/
structure StakeIndex where
  hash : Uint256
  nHeight : Nat
  nTime : Int
  fProofOfStake : Bool
  nAccumulatorCheckpoint : Uint256 := 0
  nStakeModifier : UInt64 := 0
  /-- The flag `BLOCK_STAKE_MODIFIER`. -/
  fGeneratedStakeModifier : Bool := false
  deriving DecidableEq, Repr

/-- `GetStakeEntropyBit`: the lowest bit of the hash. -/
def StakeIndex.getStakeEntropyBit (pindex : StakeIndex) : UInt64 :=
  if pindex.hash.getLsbD 0 then 1 else 0

/-- `MODIFIER_INTERVAL`, on every network. -/
def modifierInterval : Int := 60

/-- `MODIFIER_INTERVAL_RATIO`. -/
def modifierIntervalRatio : Int := 3

/-- `GetStakeModifierSelectionIntervalSection`. -/
def getStakeModifierSelectionIntervalSection (nSection : Nat) : Int :=
  modifierInterval * 63 / (63 + (63 - nSection) * (modifierIntervalRatio - 1))

/-- `GetStakeModifierSelectionInterval`. -/
def getStakeModifierSelectionInterval : Int :=
  ((List.range 64).map getStakeModifierSelectionIntervalSection).sum

/-- What the computation of a modifier reads besides the chain. -/
structure ModifierContext where
  nModifierUpdateBlock : Nat
  /-- The hash of a proof and the previous modifier. -/
  hashSelection : Uint256 → UInt64 → Uint256
  /-- The address of the literal "stakemodifier". The source casts it, and not the
  text, to a number. -/
  literalAddress : UInt64

/-- A modifier, as it is handed back. When the computation fails the caller goes on
with the values it has. -/
structure ComputedModifier where
  nStakeModifier : UInt64
  fGeneratedStakeModifier : Bool
  deriving DecidableEq, Repr

section

variable (ctx : ModifierContext)

/-- `GetLastStakeModifier`, from a block and its ancestors: the last modifier that was
generated, and its time. -/
def getLastStakeModifier (branch : List StakeIndex) : Option (UInt64 × Int) :=
  (branch.find? StakeIndex.fGeneratedStakeModifier).map fun pindex =>
    (pindex.nStakeModifier, pindex.nTime)

/-- The order of pairs of a time and a hash. -/
def timestampLe (first second : Int × Uint256) : Bool :=
  first.1 < second.1 || (first.1 == second.1 && first.2 ≤ second.2)

/-- The candidates: the blocks of the branch down to the first that is too old. -/
def sortedByTimestamp (branch : List StakeIndex) (nSelectionIntervalStart : Int) :
    List (Int × Uint256) :=
  (((branch.takeWhile fun pindex => decide (pindex.nTime ≥ nSelectionIntervalStart)).map
    fun pindex => (pindex.nTime, pindex.hash)).reverse).insertionSort (timestampLe · ·)

/-- The hash by which a candidate is selected. A proof-of-stake block is favored. -/
def selectionHash (fModifierV2 : Bool) (nStakeModifierPrev : UInt64) (pindex : StakeIndex) :
    Uint256 :=
  let hashProof := if fModifierV2 then pindex.hash else if pindex.fProofOfStake then 0
    else pindex.hash
  let hashSelection := ctx.hashSelection hashProof nStakeModifierPrev
  if pindex.fProofOfStake then hashSelection >>> 32 else hashSelection

/-- The loop of `SelectBlockFromCandidates`, with the best block so far and whether the
new selection hash is used, once the first candidate has decided that. A candidate
without a block index is an error. -/
def selectFrom (mapBlockIndex : Uint256 → Option StakeIndex) (selected : List Uint256)
    (nSelectionIntervalStop : Int) (nStakeModifierPrev : UInt64) :
    List (Int × Uint256) → Option Bool → Option (Uint256 × StakeIndex) → Option StakeIndex
  | [], _, best => best.map Prod.snd
  | item :: rest, fModifierV2, best =>
      match mapBlockIndex item.2 with
      | none => none
      | some pindex =>
          if best.isSome && decide (pindex.nTime > nSelectionIntervalStop) then best.map Prod.snd
          else
            let version := fModifierV2.getD (decide (pindex.nHeight ≥ ctx.nModifierUpdateBlock))
            if selected.contains pindex.hash then
              selectFrom mapBlockIndex selected nSelectionIntervalStop nStakeModifierPrev rest
                (some version) best
            else
              let hash := selectionHash ctx version nStakeModifierPrev pindex
              let better := best.all fun found => decide (hash < found.1)
              selectFrom mapBlockIndex selected nSelectionIntervalStop nStakeModifierPrev rest
                (some version) (if better then some (hash, pindex) else best)

/-- `SelectBlockFromCandidates`. -/
def selectBlockFromCandidates (mapBlockIndex : Uint256 → Option StakeIndex)
    (vSortedByTimestamp : List (Int × Uint256)) (mapSelectedBlocks : List Uint256)
    (nSelectionIntervalStop : Int) (nStakeModifierPrev : UInt64) : Option StakeIndex :=
  selectFrom ctx mapBlockIndex mapSelectedBlocks nSelectionIntervalStop nStakeModifierPrev
    vSortedByTimestamp none none

/-- The rounds of the selection: the bits, with the blocks that were selected and the end
of the interval. -/
def selectionRounds (mapBlockIndex : Uint256 → Option StakeIndex)
    (vSortedByTimestamp : List (Int × Uint256)) (nSelectionIntervalStart : Int)
    (nStakeModifierPrev : UInt64) : Option (UInt64 × List Uint256 × Int) :=
  (List.range (min 64 vSortedByTimestamp.length)).foldlM (fun (bits, selected, stop) nRound =>
    let stop := stop + getStakeModifierSelectionIntervalSection nRound
    (selectBlockFromCandidates ctx mapBlockIndex vSortedByTimestamp selected stop
      nStakeModifierPrev).map fun pindex =>
        (bits ||| (pindex.getStakeEntropyBit <<< UInt64.ofNat nRound), pindex.hash :: selected,
          stop)) (0, [], nSelectionIntervalStart)

/-- `ComputeNextStakeModifier`, from the previous block and its ancestors. The blocks of a
branch are found in `mapBlockIndex` under their hashes. -/
def computeNextStakeModifier (branch : List StakeIndex) : ComputedModifier :=
  match branch with
  | [] => ⟨0, true⟩
  | pindexPrev :: _ =>
      if pindexPrev.nHeight = 0 then ⟨ctx.literalAddress, true⟩
      else match getLastStakeModifier branch with
        | none => ⟨0, false⟩
        | some (nStakeModifier, nModifierTime) =>
            if nModifierTime.tdiv modifierInterval ≥ pindexPrev.nTime.tdiv modifierInterval then
              ⟨nStakeModifier, false⟩
            else
              let nSelectionIntervalStart := pindexPrev.nTime.tdiv modifierInterval *
                modifierInterval - getStakeModifierSelectionInterval
              match selectionRounds ctx (fun hash => branch.find? fun pindex => pindex.hash == hash)
                  (sortedByTimestamp branch nSelectionIntervalStart) nSelectionIntervalStart
                  nStakeModifier with
              | none => ⟨nStakeModifier, false⟩
              | some (nStakeModifierNew, _) => ⟨nStakeModifierNew, true⟩

/-- `AddToBlockIndex` of a block after the blocks of a branch. The first block has no
previous block, and no modifier is computed for it. -/
def addToBlockIndex (branch : List StakeIndex) (block : CBlock) : List StakeIndex :=
  let computed : ComputedModifier := match branch with
    | [] => ⟨0, false⟩
    | _ :: _ => computeNextStakeModifier ctx branch
  { hash := block.hash
    nHeight := branch.head?.elim 0 fun pprev => pprev.nHeight + 1
    nTime := block.nTime
    fProofOfStake := block.isProofOfStake
    nAccumulatorCheckpoint := block.nAccumulatorCheckpoint
    nStakeModifier := computed.nStakeModifier
    fGeneratedStakeModifier := computed.fGeneratedStakeModifier } :: branch

end

/-- A chain of blocks from genesis on. -/
structure BlockChain where
  blocks : List CBlock
  linked : blocks.IsChain fun block next => next.hashPrevBlock = block.hash
  distinct : (blocks.map CBlock.hash).Nodup

/-- The block index of a chain, the last block first. -/
def BlockChain.index (chain : BlockChain) (ctx : ModifierContext) : List StakeIndex :=
  chain.blocks.foldl (addToBlockIndex ctx) []

/-- The modifier of the block at a height, when the node is loaded with the literal at an
address. -/
def BlockChain.stakeModifierAt (chain : BlockChain) (ctx : ModifierContext) (address : UInt64)
    (height : Nat) : Option UInt64 :=
  (chain.index { ctx with literalAddress := address }).reverse[height]?.map
    StakeIndex.nStakeModifier

/-! ## Two runs of a node -/

section

variable {ctx : ModifierContext}

/-- Blocks that come later leave the block indexes before them as they are. -/
theorem suffix_foldl_addToBlockIndex (blocks : List CBlock) (branch : List StakeIndex) :
    branch <:+ blocks.foldl (addToBlockIndex ctx) branch := by
  induction blocks generalizing branch with
  | nil => exact List.suffix_rfl
  | cons block rest ih =>
      rw [List.foldl_cons]
      apply List.IsSuffix.trans _ (ih _)
      exact List.suffix_cons _ branch

/-- The first block after genesis has the address for its modifier. -/
theorem stakeModifierAt_one (chain : BlockChain) (address : UInt64)
    (longer : 1 < chain.blocks.length) :
    chain.stakeModifierAt ctx address 1 = some address := by
  unfold BlockChain.stakeModifierAt BlockChain.index
  match chain.blocks, longer with
  | genesis :: first :: rest, _ =>
      rw [List.foldl_cons, List.foldl_cons]
      obtain ⟨later, whole⟩ := suffix_foldl_addToBlockIndex rest
        (addToBlockIndex { ctx with literalAddress := address }
          (addToBlockIndex { ctx with literalAddress := address } [] genesis) first)
      rw [← whole, List.reverse_append]
      simp [addToBlockIndex, computeNextStakeModifier]

/-- Genesis has the same modifier in every run. -/
theorem stakeModifierAt_of_length_le (chain : BlockChain) (first second : UInt64)
    (short : chain.blocks.length ≤ 1) (height : Nat) :
    chain.stakeModifierAt ctx first height = chain.stakeModifierAt ctx second height := by
  unfold BlockChain.stakeModifierAt BlockChain.index
  match chain.blocks, short with
  | [], _ => rfl
  | [genesis], _ => rfl

end

/-- **Stake modifiers of two runs.** Two runs of a node assign the same modifiers to a
chain if and only if the literal is loaded at one address or the chain has no block
after genesis. -/
theorem stakeModifierAt_eq_iff (ctx : ModifierContext) (chain : BlockChain)
    (first second : UInt64) :
    (∀ height, chain.stakeModifierAt ctx first height = chain.stakeModifierAt ctx second height) ↔
      first = second ∨ chain.blocks.length ≤ 1 := by
  constructor
  · intro same
    by_cases short : chain.blocks.length ≤ 1
    · exact Or.inr short
    · have longer : 1 < chain.blocks.length := Nat.lt_of_not_le short
      have atOne := same 1
      rw [stakeModifierAt_one chain first longer, stakeModifierAt_one chain second longer] at atOne
      exact Or.inl (Option.some.inj atOne)
  · intro cases height
    rcases cases with rfl | short
    · rfl
    · exact stakeModifierAt_of_length_le chain first second short height

/-- Genesis and a block after it. -/
def BlockChain.twoBlocks : BlockChain where
  blocks := [⟨1, 0, 0, 1525748356, 0, [], 0, 1⟩, ⟨2, 1, 0, 1525748416, 0, [], 0, 3⟩]
  linked := by decide
  distinct := by decide

/-- The parameters of the main network, with a plain stand-in for the hash. -/
def ModifierContext.mainModifier : ModifierContext where
  nModifierUpdateBlock := 1
  hashSelection proof modifier := proof * 31 + modifier.toNat
  literalAddress := 0

/-- Two runs that load the literal at different addresses. -/
theorem not_stakeModifierAt_eq_twoBlocks :
    ¬ ∀ (ctx : ModifierContext) (chain : BlockChain) (first second : UInt64) (height : Nat),
      chain.stakeModifierAt ctx first height = chain.stakeModifierAt ctx second height := by
  intro determined
  have same := determined ModifierContext.mainModifier BlockChain.twoBlocks 0x55d0c0de 0x7f00c0de 1
  rw [stakeModifierAt_one _ _ (by decide), stakeModifierAt_one _ _ (by decide)] at same
  cases same

/-! ## The modifier of a kernel -/

/-- `CChain`: the block indexes of a branch, at their heights. -/
structure CChain where
  vChain : List StakeIndex
  heights : vChain.map StakeIndex.nHeight = List.range vChain.length

/-- A block index comes at the height after its branch. -/
theorem heights_addToBlockIndex {ctx : ModifierContext} {branch : List StakeIndex}
    (heights : branch.reverse.map StakeIndex.nHeight = List.range branch.length)
    (block : CBlock) :
    (addToBlockIndex ctx branch block).reverse.map StakeIndex.nHeight =
      List.range (addToBlockIndex ctx branch block).length := by
  unfold addToBlockIndex
  rw [List.reverse_cons, List.map_append, heights, List.length_cons, List.range_succ]
  congr 1
  cases branch with
  | nil => rfl
  | cons pprev ancestors =>
      rw [List.reverse_cons, List.map_append, List.length_cons, List.range_succ] at heights
      have last := (List.append_inj' heights rfl).2
      simpa using last

/-- The active chain of a node whose tip is the last block of a chain. -/
def BlockChain.toCChain (chain : BlockChain) (ctx : ModifierContext) : CChain where
  vChain := (chain.index ctx).reverse
  heights := by
    rw [List.length_reverse]
    apply List.foldlRecOn (motive := fun branch : List StakeIndex =>
      branch.reverse.map StakeIndex.nHeight = List.range branch.length)
    · rfl
    · intro branch heights block _
      exact heights_addToBlockIndex heights block

/-- `Contains`. -/
def CChain.contains (chain : CChain) (pindex : StakeIndex) : Bool :=
  chain.vChain[pindex.nHeight]? == some pindex

/-- The modifier of a kernel, with the height and the time at which it was generated. -/
structure KernelModifier where
  nStakeModifier : UInt64
  nStakeModifierHeight : Nat
  nStakeModifierTime : Int
  deriving DecidableEq, Repr

/-- The modifier that a block index holds. -/
def KernelModifier.ofIndex (pindex : StakeIndex) : KernelModifier where
  nStakeModifier := pindex.nStakeModifier
  nStakeModifierHeight := pindex.nHeight
  nStakeModifierTime := pindex.nTime

/-- The loop of `GetKernelStakeModifier`, along the blocks after the last one that was
visited. -/
def walkToModifier (stop : Int) (pindex : StakeIndex) (nStakeModifierHeight : Nat)
    (nStakeModifierTime : Int) (later : List StakeIndex) : Option KernelModifier :=
  if stop ≤ nStakeModifierTime then
    some ⟨pindex.nStakeModifier, nStakeModifierHeight, nStakeModifierTime⟩
  else match later with
    | [] => none
    | pindexNext :: later =>
        if pindexNext.fGeneratedStakeModifier then
          walkToModifier stop pindexNext pindexNext.nHeight pindexNext.nTime later
        else walkToModifier stop pindexNext nStakeModifierHeight nStakeModifierTime later

/-- `GetKernelStakeModifier`. -/
def getKernelStakeModifier (networkID : Network) (mapBlockIndex : Uint256 → Option StakeIndex)
    (chainActive : CChain) (hashBlockFrom : Uint256) : Option KernelModifier :=
  match mapBlockIndex hashBlockFrom with
  | none => none
  | some pindexFrom =>
      if networkID = .regtest then some (.ofIndex pindexFrom)
      else walkToModifier (pindexFrom.nTime + getStakeModifierSelectionInterval) pindexFrom
        pindexFrom.nHeight pindexFrom.nTime (chainActive.vChain.drop (pindexFrom.nHeight + 1))

/-- `Get64`. -/
def Uint256.get64 (word : Uint256) : UInt64 := UInt64.ofBitVec (word.setWidth 64)

/-- The loop of `CZGICStake::GetModifier`: the first block an hour later. -/
def walkToCheckpoint (nTimeBlockFrom : Int) : List StakeIndex → Option UInt64
  | [] => none
  | pindex :: later =>
      if pindex.nTime - nTimeBlockFrom > 60 * 60 then some pindex.nAccumulatorCheckpoint.get64
      else walkToCheckpoint nTimeBlockFrom later

/-- `CZGICStake::GetModifier`. The walk does not leave a block that is not on the
chain. -/
def zGICStakeModifier (networkID : Network) (chainActive : CChain) (pindexFrom : StakeIndex) :
    Option UInt64 :=
  if networkID = .regtest then some pindexFrom.nStakeModifier
  else if chainActive.contains pindexFrom then
    walkToCheckpoint pindexFrom.nTime (chainActive.vChain.drop pindexFrom.nHeight)
  else none

/-- The modifier of the second block serves a kernel of the first one. -/
def StakeIndex.servesKernel (pindexFrom pindex : StakeIndex) : Bool :=
  pindex.fGeneratedStakeModifier &&
    decide (pindexFrom.nTime + getStakeModifierSelectionInterval ≤ pindex.nTime)

/-- The checkpoint of the second block serves a zerocoin kernel of the first one. -/
def StakeIndex.servesZGIC (pindexFrom pindex : StakeIndex) : Bool :=
  decide (pindex.nTime - pindexFrom.nTime > 60 * 60)

section

variable {pindexFrom : StakeIndex} {later : List StakeIndex}

/-- The walk finds the first later block whose modifier serves the kernel. -/
theorem walkToModifier_eq (pindex : StakeIndex) (height : Nat) (time : Int)
    (early : time < pindexFrom.nTime + getStakeModifierSelectionInterval) :
    walkToModifier (pindexFrom.nTime + getStakeModifierSelectionInterval) pindex height time
      later = (later.find? pindexFrom.servesKernel).map KernelModifier.ofIndex := by
  induction later generalizing pindex height time with
  | nil =>
      rw [walkToModifier, if_neg (not_le.mpr early)]
      rfl
  | cons next later ih =>
      rw [walkToModifier, if_neg (not_le.mpr early), List.find?_cons]
      cases generated : next.fGeneratedStakeModifier with
      | false =>
          simp only [Bool.false_eq_true, ↓reduceIte, StakeIndex.servesKernel, generated,
            Bool.false_and]
          exact ih next height time early
      | true =>
          by_cases late : pindexFrom.nTime + getStakeModifierSelectionInterval ≤ next.nTime
          · rw [if_pos rfl, walkToModifier.eq_def, if_pos late]
            simp [StakeIndex.servesKernel, generated, late, KernelModifier.ofIndex]
          · rw [if_pos rfl, ih next next.nHeight next.nTime (not_le.mp late)]
            simp [StakeIndex.servesKernel, generated, late]

theorem walkToCheckpoint_eq :
    walkToCheckpoint pindexFrom.nTime later =
      (later.find? pindexFrom.servesZGIC).map fun pindex =>
          pindex.nAccumulatorCheckpoint.get64 := by
  induction later with
  | nil => rfl
  | cons next later ih =>
      rw [walkToCheckpoint, List.find?_cons, StakeIndex.servesZGIC]
      by_cases late : next.nTime - pindexFrom.nTime > 60 * 60
      · rw [if_pos late, decide_eq_true late]
        rfl
      · rw [if_neg late, decide_eq_false late, ih]

end

/-! ## Two branches -/

/-- The first block from a height on that serves is shared by two branches, or what is read
of it is the same on both, after the blocks that they share. -/
def ServesAlike {β : Type} (serves : StakeIndex → Bool) (read : StakeIndex → β)
    (shared active own : List StakeIndex) (height : Nat) : Prop :=
  (∃ pindex ∈ shared.drop height, serves pindex = true) ∨
    ((active.drop (height - shared.length)).find? serves).map read =
      ((own.drop (height - shared.length)).find? serves).map read

/-- What two branches that share blocks give for a kernel. -/
theorem map_find?_drop_eq_iff {β : Type} {serves : StakeIndex → Bool} {read : StakeIndex → β}
    {shared active own : List StakeIndex} {height : Nat} :
    (((shared ++ active).drop height).find? serves).map read =
        (((shared ++ own).drop height).find? serves).map read ↔
      ServesAlike serves read shared active own height := by
  unfold ServesAlike
  rw [List.drop_append, List.drop_append, List.find?_append, List.find?_append]
  cases found : (shared.drop height).find? serves with
  | none =>
      rw [List.find?_eq_none] at found
      simp only [Option.none_or]
      constructor
      · exact Or.inr
      · rintro (⟨pindex, member, served⟩ | same)
        · exact absurd served (found pindex member)
        · exact same
  | some pindex =>
      simp only [Option.some_or, true_iff]
      exact Or.inl ⟨pindex, List.mem_of_find?_eq_some found, List.find?_some found⟩

/-- The first block that serves stays the first when the branch grows. -/
theorem find?_drop_of_extends {serves : StakeIndex → Bool} {chain extended : List StakeIndex}
    {height : Nat} {pindex : StakeIndex} (grows : chain <+: extended)
    (found : (chain.drop height).find? serves = some pindex) :
    (extended.drop height).find? serves = some pindex := by
  obtain ⟨added, rfl⟩ := grows
  rw [List.drop_append, List.find?_append, found]
  rfl

theorem CChain.contains_of_prefix {chain extended : CChain} {pindex : StakeIndex}
    (grows : chain.vChain <+: extended.vChain) (member : chain.contains pindex = true) :
    extended.contains pindex = true := by
  rw [CChain.contains, beq_iff_eq] at member ⊢
  obtain ⟨inside, _⟩ := List.getElem?_eq_some_iff.mp member
  obtain ⟨added, whole⟩ := grows
  rw [← whole, List.getElem?_append_left inside]
  exact member

section

variable {networkID : Network} {mapBlockIndex : Uint256 → Option StakeIndex}
  {pindexFrom : StakeIndex} {hashBlockFrom : Uint256}

/-- Outside regtest the modifier of a kernel is that of the first later block of the chain
which serves it. -/
theorem getKernelStakeModifier_eq (other : networkID ≠ .regtest) (chain : CChain)
    (indexed : mapBlockIndex hashBlockFrom = some pindexFrom) :
    getKernelStakeModifier networkID mapBlockIndex chain hashBlockFrom =
      ((chain.vChain.drop (pindexFrom.nHeight + 1)).find? pindexFrom.servesKernel).map
        KernelModifier.ofIndex := by
  have positive : 0 < getStakeModifierSelectionInterval := by decide
  rw [getKernelStakeModifier, indexed]
  dsimp only
  rw [if_neg other]
  apply walkToModifier_eq
  omega

theorem zGICStakeModifier_eq (other : networkID ≠ .regtest) {chain : CChain}
    (member : chain.contains pindexFrom = true) :
    zGICStakeModifier networkID chain pindexFrom =
      ((chain.vChain.drop pindexFrom.nHeight).find? pindexFrom.servesZGIC).map
        fun pindex => pindex.nAccumulatorCheckpoint.get64 := by
  rw [zGICStakeModifier, if_neg other, if_pos member, walkToCheckpoint_eq]

/-- A modifier that was found stays when the chain grows. -/
theorem getKernelStakeModifier_of_prefix {chain extended : CChain} {result : KernelModifier}
    (grows : chain.vChain <+: extended.vChain)
    (found : getKernelStakeModifier networkID mapBlockIndex chain hashBlockFrom = some result) :
    getKernelStakeModifier networkID mapBlockIndex extended hashBlockFrom = some result := by
  cases indexed : mapBlockIndex hashBlockFrom with
  | none =>
      rw [getKernelStakeModifier, indexed] at found
      cases found
  | some pindexFrom =>
      by_cases regtest : networkID = .regtest
      · rw [getKernelStakeModifier, indexed] at found ⊢
        dsimp only at found ⊢
        rw [if_pos regtest] at found ⊢
        exact found
      · rw [getKernelStakeModifier_eq regtest _ indexed] at found ⊢
        obtain ⟨pindex, first, rfl⟩ := Option.map_eq_some_iff.mp found
        rw [find?_drop_of_extends grows first]
        rfl

theorem zGICStakeModifier_of_prefix {chain extended : CChain} {result : UInt64}
    (grows : chain.vChain <+: extended.vChain)
    (found : zGICStakeModifier networkID chain pindexFrom = some result) :
    zGICStakeModifier networkID extended pindexFrom = some result := by
  by_cases regtest : networkID = .regtest
  · rw [zGICStakeModifier, if_pos regtest] at found ⊢
    exact found
  · by_cases member : chain.contains pindexFrom = true
    · rw [zGICStakeModifier_eq regtest member] at found
      rw [zGICStakeModifier_eq regtest (CChain.contains_of_prefix grows member)]
      obtain ⟨pindex, first, rfl⟩ := Option.map_eq_some_iff.mp found
      rw [find?_drop_of_extends grows first]
      rfl
    · rw [zGICStakeModifier, if_neg regtest, if_neg member] at found
      cases found

end

/-- Two branches give a kernel the same modifier: on regtest and for an unknown block
always, else when the first block that serves the kernel is shared or alike. -/
def KernelAgrees (networkID : Network) (mapBlockIndex : Uint256 → Option StakeIndex)
    (shared active own : List StakeIndex) (hashBlockFrom : Uint256) : Prop :=
  networkID ≠ .regtest → ∀ pindexFrom, mapBlockIndex hashBlockFrom = some pindexFrom →
    ServesAlike pindexFrom.servesKernel KernelModifier.ofIndex shared active own
      (pindexFrom.nHeight + 1)

/-- The same for a zerocoin kernel. A block that is not on the own branch gives no
modifier there. -/
def ZGICKernelAgrees (networkID : Network) (ownBranch : CChain)
    (shared active own : List StakeIndex) (pindexFrom : StakeIndex) : Prop :=
  networkID ≠ .regtest →
    if ownBranch.contains pindexFrom then
      ServesAlike pindexFrom.servesZGIC (fun pindex => pindex.nAccumulatorCheckpoint.get64)
        shared active own pindexFrom.nHeight
    else ∀ pindex ∈ (shared ++ active).drop pindexFrom.nHeight,
      pindexFrom.servesZGIC pindex = false

/-- **The modifier of a kernel on the branches of a tree.** When the active chain grows, a
modifier that was found stays with its height and time. The modifier of a kernel on the
active chain is the one on the branch of the block under validation if and only if the
first block that serves the kernel is shared by the two or is alike on both. -/
theorem kernelStakeModifier_on_branches (networkID : Network)
    (mapBlockIndex : Uint256 → Option StakeIndex) (chainActive ownBranch : CChain)
    (shared active own : List StakeIndex) (activeShape : chainActive.vChain = shared ++ active)
    (ownShape : ownBranch.vChain = shared ++ own) :
    (∀ (extended : CChain), chainActive.vChain <+: extended.vChain →
      (∀ hashBlockFrom result,
        getKernelStakeModifier networkID mapBlockIndex chainActive hashBlockFrom = some result →
        getKernelStakeModifier networkID mapBlockIndex extended hashBlockFrom = some result) ∧
      ∀ pindexFrom result, zGICStakeModifier networkID chainActive pindexFrom = some result →
        zGICStakeModifier networkID extended pindexFrom = some result) ∧
    (∀ hashBlockFrom,
      getKernelStakeModifier networkID mapBlockIndex chainActive hashBlockFrom =
          getKernelStakeModifier networkID mapBlockIndex ownBranch hashBlockFrom ↔
        KernelAgrees networkID mapBlockIndex shared active own hashBlockFrom) ∧
    (∀ pindexFrom, chainActive.contains pindexFrom = true →
      (zGICStakeModifier networkID chainActive pindexFrom =
          zGICStakeModifier networkID ownBranch pindexFrom ↔
        ZGICKernelAgrees networkID ownBranch shared active own pindexFrom)) := by
  refine ⟨?_, ?_, ?_⟩
  · intro extended grows
    exact ⟨fun _ _ => getKernelStakeModifier_of_prefix grows,
      fun _ _ => zGICStakeModifier_of_prefix grows⟩
  · intro hashBlockFrom
    unfold KernelAgrees
    by_cases regtest : networkID = .regtest
    · simp [getKernelStakeModifier, regtest]
    · cases indexed : mapBlockIndex hashBlockFrom with
      | none => simp [getKernelStakeModifier, indexed]
      | some pindexFrom =>
          rw [getKernelStakeModifier_eq regtest _ indexed,
            getKernelStakeModifier_eq regtest _ indexed, activeShape, ownShape,
            map_find?_drop_eq_iff]
          simp [regtest]
  · intro pindexFrom member
    unfold ZGICKernelAgrees
    by_cases regtest : networkID = .regtest
    · simp [zGICStakeModifier, regtest]
    · rw [zGICStakeModifier_eq regtest member, activeShape]
      by_cases onOwn : ownBranch.contains pindexFrom = true
      · rw [zGICStakeModifier_eq regtest onOwn, ownShape, map_find?_drop_eq_iff, if_pos onOwn]
        simp [regtest]
      · rw [zGICStakeModifier, if_neg regtest, if_neg onOwn, if_neg onOwn]
        simp [regtest]

/-- Four blocks, of which the last two may be on a fork. -/
def BlockChain.forked (third fourth : Uint256) : List CBlock :=
  [⟨1, 0, 0, 1525748356, 0, [], 0, 1⟩, ⟨2, 1, 0, 1525748416, 0, [], 0, 3⟩,
    ⟨third, 2, 0, 1525748476, 0, [], 0, 3⟩, ⟨fourth, third, 0, 1525752356, 0, [], 0, 3⟩]

def BlockChain.activeChain : BlockChain where
  blocks := BlockChain.forked 11 13
  linked := by decide
  distinct := by decide

def BlockChain.ownBranch : BlockChain where
  blocks := BlockChain.forked 10 12
  linked := by decide
  distinct := by decide

/-- The block index of a node that knows both branches. -/
def forkedIndex (hash : Uint256) : Option StakeIndex :=
  ((BlockChain.activeChain.toCChain .mainModifier).vChain ++
    (BlockChain.ownBranch.toCChain .mainModifier).vChain).find? fun pindex => pindex.hash == hash

/-- The blocks of a branch after the two that both branches share. -/
def BlockChain.afterSplit (chain : BlockChain) : List StakeIndex :=
  (chain.toCChain .mainModifier).vChain.drop 2

/-- The blocks that both branches share. -/
def sharedBlocks : List StakeIndex := (BlockChain.activeChain.toCChain .mainModifier).vChain.take 2

/-- The own branch with one more block. -/
def BlockChain.grown (fifth : Uint256) : List CBlock :=
  BlockChain.forked 10 12 ++ [⟨fifth, 12, 0, 1525752416, 0, [], 0, 3⟩]

def BlockChain.grownActive : BlockChain where
  blocks := BlockChain.grown 20
  linked := by decide
  distinct := by decide

def BlockChain.grownOwn : BlockChain where
  blocks := BlockChain.grown 21
  linked := by decide
  distinct := by decide

/-- Two branches that split above the block that serves a kernel of the second block. -/
theorem kernelStakeModifier_on_branches_forked :
    (getKernelStakeModifier .main forkedIndex (BlockChain.grownActive.toCChain .mainModifier)
      2).isSome = true ∧
    getKernelStakeModifier .main forkedIndex (BlockChain.grownActive.toCChain .mainModifier) 2 =
      getKernelStakeModifier .main forkedIndex (BlockChain.grownOwn.toCChain .mainModifier) 2 := by
  refine ⟨by decide +kernel, ?_⟩
  have branches := kernelStakeModifier_on_branches .main forkedIndex
    (BlockChain.grownActive.toCChain .mainModifier) (BlockChain.grownOwn.toCChain .mainModifier)
    (BlockChain.ownBranch.toCChain .mainModifier).vChain
    ((BlockChain.grownActive.toCChain .mainModifier).vChain.drop 4)
    ((BlockChain.grownOwn.toCChain .mainModifier).vChain.drop 4)
    (by decide +kernel) (by decide +kernel)
  apply (branches.2.1 2).mpr
  intro _ pindexFrom indexed
  have served : ((forkedIndex 2).all fun pindexFrom : StakeIndex =>
      ((BlockChain.ownBranch.toCChain .mainModifier).vChain.drop (pindexFrom.nHeight + 1)).any
        pindexFrom.servesKernel) = true := by
    decide +kernel
  rw [indexed, Option.all_some, List.any_eq_true] at served
  exact Or.inl served

/-- The first modifier that serves a kernel of the second block is above the split. -/
theorem not_kernelStakeModifier_on_own_branch :
    ¬ ∀ (networkID : Network) (mapBlockIndex : Uint256 → Option StakeIndex)
      (chainActive ownBranch : CChain) (shared active own : List StakeIndex),
      chainActive.vChain = shared ++ active → ownBranch.vChain = shared ++ own →
      (∀ (extended : CChain), chainActive.vChain <+: extended.vChain →
        ∀ hashBlockFrom result,
          getKernelStakeModifier networkID mapBlockIndex chainActive hashBlockFrom = some result →
          getKernelStakeModifier networkID mapBlockIndex extended hashBlockFrom = some result) ∧
      ∀ hashBlockFrom,
        getKernelStakeModifier networkID mapBlockIndex chainActive hashBlockFrom =
          getKernelStakeModifier networkID mapBlockIndex ownBranch hashBlockFrom := by
  intro alike
  have same := (alike .main forkedIndex (BlockChain.activeChain.toCChain .mainModifier)
    (BlockChain.ownBranch.toCChain .mainModifier) sharedBlocks BlockChain.activeChain.afterSplit
    BlockChain.ownBranch.afterSplit (by decide +kernel) (by decide +kernel)).2 2
  revert same
  decide +kernel

end GiantCore
