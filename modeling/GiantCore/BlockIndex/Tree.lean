import GiantCore.Foundation.ParentTree
import GiantCore.Primitives.Block
import GiantCore.Zerocoin.Coins
import Mathlib.Data.Prod.Lex

/-! # The block tree

The entries of `mapBlockIndex` with the fields of `CBlockIndex` that the search for the best chain
reads or changes, the active chain `CChain`, and the search for ancestors with skip pointers.
Pointers to entries are the hashes of the blocks; where the addresses themselves are compared, they
are a parameter.
-/

namespace GiantCore

open GiantCore.Foundation

/-- How far a block was checked, `BLOCK_VALID_MASK`. -/
inductive BlockValidity where
  | unknown
  | header
  | tree
  | transactions
  | chain
  | scripts
  deriving DecidableEq, Repr

def BlockValidity.level : BlockValidity → Nat
  | .unknown => 0
  | .header => 1
  | .tree => 2
  | .transactions => 3
  | .chain => 4
  | .scripts => 5

/-- The bits of `nStatus`. -/
structure BlockStatus where
  validity : BlockValidity := .unknown
  haveData : Bool := false
  haveUndo : Bool := false
  failedValid : Bool := false
  failedChild : Bool := false
  deriving DecidableEq, Repr

namespace BlockStatus

variable (nStatus : BlockStatus)

/-- One of the bits of `BLOCK_FAILED_MASK`. -/
def failed : Bool := nStatus.failedValid || nStatus.failedChild

/-- The level of validity is at least the given one. -/
def reaches (nUpTo : BlockValidity) : Bool := decide (nUpTo.level ≤ nStatus.validity.level)

def isValid (nUpTo : BlockValidity) : Bool := !nStatus.failed && nStatus.reaches nUpTo

def raiseValidity (nUpTo : BlockValidity) : BlockStatus :=
  if nStatus.failed then nStatus
  else if nStatus.reaches nUpTo then nStatus
  else { nStatus with validity := nUpTo }

end BlockStatus

/-- An entry of `mapBlockIndex`. The pointers `pprev` and `pskip` are hashes. -/
structure TreeEntry where
  pprev : Option Uint256 := none
  pskip : Option Uint256 := none
  nHeight : Nat := 0
  nUndoPos : Nat := 0
  nChainWork : Uint256 := 0
  nTx : Nat := 0
  /-- An `unsigned int`. -/
  nChainTx : Nat := 0
  nStatus : BlockStatus := {}
  nMint : CAmount := 0
  nMoneySupply : CAmount := 0
  /-- A `uint32_t`. -/
  nSequenceId : Nat := 0
  mapZerocoinSupply : CoinDenomination → Int := fun _ => 0
  vMintDenominationsInBlock : List CoinDenomination := []

/-- The block index, the active chain and what is derived from them. -/
structure IndexTree where
  /-- The keys of `mapBlockIndex`. -/
  hashes : List Uint256 := []
  entry : Uint256 → TreeEntry := fun _ => {}
  /-- The vector of `chainActive`. -/
  vChain : List (Option Uint256) := []
  setBlockIndexCandidates : List Uint256 := []
  mapBlocksUnlinked : List (Uint256 × Uint256) := []

/-- `GetBlockProof`. -/
def getBlockProof (nBits : UInt32) : Uint256 :=
  let bnTarget := Uint256.setCompact nBits
  if bnTarget.fNegative || bnTarget.fOverflow || bnTarget.target == 0 then 0
  else ~~~bnTarget.target / (bnTarget.target + 1) + 1

/-- Turn the lowest bit that is set into a zero. -/
def invertLowestOne (n : Nat) : Nat := n &&& (n - 1)

/-- The height that the skip pointer goes to. -/
def getSkipHeight (height : Nat) : Nat :=
  if height < 2 then 0
  else if height % 2 = 1 then invertLowestOne (invertLowestOne (height - 1)) + 1
  else invertLowestOne height

namespace IndexTree

variable (tree : IndexTree)

def parent (hash : Uint256) : Option Uint256 := (tree.entry hash).pprev

def height (hash : Uint256) : Nat := (tree.entry hash).nHeight

/-- The entries from one down to the first block, along `pprev`. -/
def path (hash : Uint256) : List Uint256 := ParentTree.path tree.parent tree.height hash

def modify (hash : Uint256) (change : TreeEntry → TreeEntry) : IndexTree :=
  { tree with entry := Function.update tree.entry hash (change (tree.entry hash)) }

/-! ## Ancestors -/

/-- The loop of `GetAncestor`. -/
def getAncestorLoop (height : Nat) : Nat → Uint256 → Nat → Option Uint256
  | 0, pindexWalk, _ => some pindexWalk
  | rounds + 1, pindexWalk, heightWalk =>
      if heightWalk > height then
        let heightSkip := getSkipHeight heightWalk
        let heightSkipPrev := getSkipHeight (heightWalk - 1)
        -- only follow pskip if pprev->pskip isn't better than pskip->pprev
        if heightSkip = height ∨
            (heightSkip > height ∧
              ¬(heightSkipPrev + 2 < heightSkip ∧ heightSkipPrev ≥ height)) then
          (tree.entry pindexWalk).pskip.bind fun pindex =>
            getAncestorLoop height rounds pindex heightSkip
        else (tree.entry pindexWalk).pprev.bind fun pindex =>
          getAncestorLoop height rounds pindex (heightWalk - 1)
      else some pindexWalk

/-- `GetAncestor`; the height of a chain without blocks is negative. -/
def getAncestor (hash : Uint256) (height : Int) : Option Uint256 :=
  if height > tree.height hash ∨ height < 0 then none
  else tree.getAncestorLoop height.toNat (tree.height hash) hash (tree.height hash)

/-! ## The active chain -/

def tip : Option Uint256 := tree.vChain.getLast?.join

/-- `CChain::Height`. -/
def chainHeight : Int := tree.vChain.length - 1

def contains (hash : Uint256) : Bool := tree.vChain[tree.height hash]? == some (some hash)

/-- The loop of `SetTip` over the ancestors. -/
def setTipLoop (height : Uint256 → Nat) :
    List Uint256 → List (Option Uint256) → List (Option Uint256)
  | [], vChain => vChain
  | pindex :: rest, vChain =>
      if vChain[height pindex]? = some (some pindex) then vChain
      else setTipLoop height rest (vChain.set (height pindex) (some pindex))

/-- `vector::resize`; new places are null. -/
def resize (size : Nat) (vChain : List (Option Uint256)) : List (Option Uint256) :=
  vChain.take size ++ List.replicate (size - vChain.length) none

def setTip : Option Uint256 → IndexTree
  | none => { tree with vChain := [] }
  | some pindex => { tree with
      vChain := setTipLoop tree.height (tree.path pindex)
        (resize (tree.height pindex + 1) tree.vChain) }

/-- The last block that the chain has in common with an entry. -/
def findFork (hash : Uint256) : Option Uint256 :=
  (if (tree.height hash : Int) > tree.chainHeight then tree.getAncestor hash tree.chainHeight
    else some hash).bind fun pindex => (tree.path pindex).find? tree.contains

/-! ## The order of the candidates -/

/-- `CBlockIndexWorkComparator`: whether one entry sorts before another. Addresses break the
last ties. -/
def workComparator (address : Uint256 → Nat) (pa pb : Uint256) : Bool :=
  let a := tree.entry pa
  let b := tree.entry pb
  -- first sort by most total work, ...
  if a.nChainWork > b.nChainWork then false
  else if a.nChainWork < b.nChainWork then true
  -- ... then by earliest time received
  else if a.nSequenceId < b.nSequenceId then false
  else if a.nSequenceId > b.nSequenceId then true
  else if address pa < address pb then false
  else decide (address pa > address pb)

/-! ## Facts about ancestors -/

/-- The heights count the parents, which are all in the index. -/
def Leveled : Prop := ParentTree.Leveled (· ∈ tree.hashes) tree.parent tree.height

/-- The skip pointers are those of `BuildSkip`. -/
def SkipsBuilt : Prop := ∀ hash ∈ tree.hashes, ∀ up, tree.parent hash = some up →
  ∃ skip ∈ tree.path up, (tree.entry hash).pskip = some skip ∧
    tree.height skip = getSkipHeight (tree.height hash)

end IndexTree

theorem invertLowestOne_lt {n : Nat} (positive : 0 < n) : invertLowestOne n < n := by
  have bound : invertLowestOne n ≤ n - 1 := Nat.and_le_right
  omega

theorem getSkipHeight_lt {height : Nat} (positive : 0 < height) :
    getSkipHeight height < height := by
  unfold getSkipHeight
  split
  · exact positive
  · split
    · have first : invertLowestOne (height - 1) < height - 1 := invertLowestOne_lt (by omega)
      have second : invertLowestOne (invertLowestOne (height - 1)) ≤ invertLowestOne (height - 1) :=
        Nat.and_le_left
      omega
    · exact invertLowestOne_lt positive

namespace IndexTree

variable {tree : IndexTree}

/-- **The loop of `GetAncestor`** finds the entry at a height. -/
theorem getAncestorLoop_eq_some (leveled : tree.Leveled) (skips : tree.SkipsBuilt)
    {rounds height : Nat} {hash : Uint256} (known : hash ∈ tree.hashes)
    (below : height ≤ tree.height hash) (enough : tree.height hash ≤ rounds + height) :
    ∃ found ∈ tree.path hash, tree.height found = height ∧
      tree.getAncestorLoop height rounds hash (tree.height hash) = some found := by
  induction rounds generalizing hash with
  | zero =>
      exact ⟨hash, leveled.self_mem_path known, by omega, rfl⟩
  | succ rounds ih =>
      unfold getAncestorLoop
      split
      · rename_i above
        obtain ⟨up, parent⟩ : ∃ up, tree.parent hash = some up := by
          rw [← Option.ne_none_iff_exists']
          intro root
          have bottom := leveled.root hash known root
          omega
        obtain ⟨upKnown, higher⟩ := leveled.child hash up known parent
        have upMember : up ∈ tree.path hash := by
          rw [path, leveled.path_child known parent]
          exact List.mem_cons_of_mem _ (leveled.self_mem_path upKnown)
        dsimp only
        split
        · rename_i skipping
          obtain ⟨skip, member, pointer, lower⟩ := skips hash known up parent
          have skipKnown := leveled.known_of_mem_path upKnown member
          have less : getSkipHeight (tree.height hash) < tree.height hash :=
            getSkipHeight_lt (by omega)
          rw [pointer, Option.bind_some, ← lower]
          obtain ⟨found, inside, here, loop⟩ := ih skipKnown (by omega) (by omega)
          refine ⟨found, ?_, here, loop⟩
          exact leveled.mem_path_trans known
            (leveled.mem_path_trans upKnown inside member) upMember
        · have pprev : (tree.entry hash).pprev = some up := parent
          rw [pprev, Option.bind_some, higher, Nat.add_sub_cancel]
          obtain ⟨found, inside, here, loop⟩ := ih upKnown (by omega) (by omega)
          exact ⟨found, leveled.mem_path_trans known inside upMember, here, loop⟩
      · exact ⟨hash, leveled.self_mem_path known, by omega, rfl⟩

/-- **`GetAncestor`** finds the entry at a height. -/
theorem getAncestor_eq_some (leveled : tree.Leveled) (skips : tree.SkipsBuilt) {hash : Uint256}
    (known : hash ∈ tree.hashes) {height : Nat} (below : height ≤ tree.height hash) :
    ∃ found ∈ tree.path hash, tree.height found = height ∧
      tree.getAncestor hash height = some found := by
  unfold getAncestor
  rw [if_neg (by omega), Int.toNat_natCast]
  exact getAncestorLoop_eq_some leveled skips known below (by omega)

/-! ## Facts about the active chain -/

/-- **The chain is the path of an entry**, from the first block up. -/
def Mirrors (tree : IndexTree) (hash : Uint256) : Prop :=
  tree.vChain = (tree.path hash).reverse.map some

theorem Mirrors.tip_eq {hash : Uint256} (leveled : tree.Leveled) (known : hash ∈ tree.hashes)
    (mirrors : tree.Mirrors hash) : tree.tip = some hash := by
  have last : (tree.path hash).reverse.getLast? = some hash := by
    rw [List.getLast?_reverse]
    cases above : tree.parent hash with
    | none => rw [path, ParentTree.path_root above, List.head?_cons]
    | some up => rw [path, leveled.path_child known above, List.head?_cons]
  rw [tip, mirrors, List.getLast?_map, last]
  rfl

/-- What a place of a vector holds stands there with its ancestors below. -/
def ClosedBelow (tree : IndexTree) (limit : Nat) (vChain : List (Option Uint256)) : Prop :=
  ∀ place ≤ limit, ∀ hash, vChain[place]? = some (some hash) →
    hash ∈ tree.hashes ∧ tree.height hash = place ∧
      ∀ low ∈ tree.path hash, vChain[tree.height low]? = some (some low)

/-- The places above a height have the path of an entry. -/
def FilledAbove (tree : IndexTree) (hash : Uint256) (limit : Nat)
    (vChain : List (Option Uint256)) : Prop :=
  ∀ other ∈ tree.path hash, limit < tree.height other →
    vChain[tree.height other]? = some (some other)

section

variable (leveled : tree.Leveled)

include leveled

theorem getElem?_mirrors {hash : Uint256} (known : hash ∈ tree.hashes) {place : Nat}
    {other : Uint256} : ((tree.path hash).reverse.map some)[place]? = some (some other) ↔
      other ∈ tree.path hash ∧ tree.height other = place := by
  rw [List.getElem?_map, Option.map_eq_some_iff]
  constructor
  · rintro ⟨found, here, same⟩
    cases same
    exact (leveled.getElem?_reverse_path known).mp here
  · intro here
    exact ⟨other, (leveled.getElem?_reverse_path known).mpr here, rfl⟩

theorem Mirrors.contains_iff {hash other : Uint256} (mirrors : tree.Mirrors hash)
    (known : hash ∈ tree.hashes) : tree.contains other = true ↔ other ∈ tree.path hash := by
  rw [contains, beq_iff_eq, mirrors, getElem?_mirrors leveled known]
  exact ⟨fun here => here.1, fun here => ⟨here, rfl⟩⟩

theorem Mirrors.closedBelow {hash : Uint256} (mirrors : tree.Mirrors hash)
    (known : hash ∈ tree.hashes) (limit : Nat) : tree.ClosedBelow limit tree.vChain := by
  intro place _ other here
  rw [mirrors, getElem?_mirrors leveled known] at here
  refine ⟨leveled.known_of_mem_path known here.1, here.2, fun low member => ?_⟩
  rw [mirrors, getElem?_mirrors leveled known]
  exact ⟨leveled.mem_path_trans known member here.1, rfl⟩

/-- Where a place has its entry already, so have those below it. -/
theorem filled_of_stop {hash current : Uint256} (known : hash ∈ tree.hashes)
    (member : current ∈ tree.path hash) {vChain : List (Option Uint256)}
    (upper : FilledAbove tree hash (tree.height current) vChain)
    (closed : tree.ClosedBelow (tree.height current) vChain)
    (here : vChain[tree.height current]? = some (some current)) :
    ∀ other ∈ tree.path hash, vChain[tree.height other]? = some (some other) := by
  intro other inside
  rcases le_or_gt (tree.height other) (tree.height current) with low | high
  · exact (closed _ le_rfl current here).2.2 other
      (leveled.mem_path_of_level_le known inside member low)
  · exact upper other inside high

/-- One more place is filled. -/
theorem filled_set {hash current : Uint256} (known : hash ∈ tree.hashes)
    (member : current ∈ tree.path hash) {vChain : List (Option Uint256)}
    (size : vChain.length = tree.height hash + 1)
    (upper : FilledAbove tree hash (tree.height current) vChain) {other : Uint256}
    (inside : other ∈ tree.path hash) (high : tree.height current ≤ tree.height other) :
    (vChain.set (tree.height current) (some current))[tree.height other]? = some (some other) := by
  have limit : tree.height current ≤ tree.height hash := leveled.level_le known member
  rcases high.lt_or_eq with higher | same
  · rw [List.getElem?_set_ne (by omega)]
    exact upper other inside higher
  · rw [leveled.eq_of_level_eq known inside member same.symm, List.getElem?_set_self (by omega)]

/-- **The loop of `SetTip`**, from an entry of the path on. -/
theorem setTipLoop_filled {hash : Uint256} (known : hash ∈ tree.hashes) {current : Uint256}
    (currentKnown : current ∈ tree.hashes) (member : current ∈ tree.path hash)
    {vChain : List (Option Uint256)} (size : vChain.length = tree.height hash + 1)
    (upper : FilledAbove tree hash (tree.height current) vChain)
    (closed : tree.ClosedBelow (tree.height current) vChain) :
    (setTipLoop tree.height (tree.path current) vChain).length = tree.height hash + 1 ∧
      ∀ other ∈ tree.path hash, (setTipLoop tree.height (tree.path current) vChain)[
        tree.height other]? = some (some other) := by
  induction current, currentKnown using leveled.induct generalizing vChain with
  | root current currentKnown root =>
      have bottom : tree.height current = 0 := leveled.root current currentKnown root
      rw [path, ParentTree.path_root root, setTipLoop]
      split
      · rename_i here
        exact ⟨size, filled_of_stop leveled known member upper closed here⟩
      · rw [setTipLoop]
        exact ⟨by rw [List.length_set, size],
          fun other inside => filled_set leveled known member size upper inside (by omega)⟩
  | child current up currentKnown above upKnown ih =>
      have higher : tree.height current = tree.height up + 1 :=
        (leveled.child current up currentKnown above).2
      have tail : tree.path current = current :: tree.path up :=
        leveled.path_child currentKnown above
      rw [tail, setTipLoop]
      split
      · rename_i here
        exact ⟨size, filled_of_stop leveled known member upper closed here⟩
      · have upMember : up ∈ tree.path hash := by
          refine leveled.mem_path_trans known ?_ member
          rw [leveled.path_child currentKnown above]
          exact List.mem_cons_of_mem _ (leveled.self_mem_path upKnown)
        refine ih upMember (by rw [List.length_set, size]) ?_ ?_
        · intro other inside high
          exact filled_set leveled known member size upper inside (by omega)
        · intro place low other here
          rw [List.getElem?_set_ne (by omega)] at here
          obtain ⟨otherKnown, same, ancestors⟩ := closed place (by omega) other here
          refine ⟨otherKnown, same, fun lower inside => ?_⟩
          have limit : tree.height lower ≤ tree.height other := leveled.level_le otherKnown inside
          rw [List.getElem?_set_ne (by omega)]
          exact ancestors lower inside

/-- **`SetTip`** makes the chain the path of the new tip. -/
theorem mirrors_setTip (closed : ∀ limit, tree.ClosedBelow limit tree.vChain) {hash : Uint256}
    (known : hash ∈ tree.hashes) : (tree.setTip (some hash)).Mirrors hash := by
  have size : (resize (tree.height hash + 1) tree.vChain).length = tree.height hash + 1 := by
    rw [resize, List.length_append, List.length_take, List.length_replicate]
    omega
  have kept : ∀ place ≤ tree.height hash, ∀ other,
      (resize (tree.height hash + 1) tree.vChain)[place]? = some (some other) ↔
        tree.vChain[place]? = some (some other) := by
    intro place low other
    rw [resize]
    by_cases inside : place < tree.vChain.length
    · rw [List.getElem?_append_left (by rw [List.length_take]; omega),
        List.getElem?_take_of_lt (by omega)]
    · rw [List.getElem?_append_right (by rw [List.length_take]; omega),
        List.getElem?_eq_none (not_lt.mp inside), List.getElem?_replicate]
      split <;> simp
  have above : FilledAbove tree hash (tree.height hash)
      (resize (tree.height hash + 1) tree.vChain) :=
    fun other inside high => absurd (leveled.level_le known inside) (not_le.mpr high)
  have below : tree.ClosedBelow (tree.height hash)
      (resize (tree.height hash + 1) tree.vChain) := by
    intro place low other here
    rw [kept place low] at here
    obtain ⟨otherKnown, same, ancestors⟩ := closed place place le_rfl other here
    refine ⟨otherKnown, same, fun lower member => ?_⟩
    have limit : tree.height lower ≤ tree.height other := leveled.level_le otherKnown member
    rw [kept _ (by omega)]
    exact ancestors lower member
  obtain ⟨length, filled⟩ :=
    setTipLoop_filled leveled known known (leveled.self_mem_path known) size above below
  change setTipLoop tree.height (tree.path hash) _ = (tree.path hash).reverse.map some
  refine List.ext_getElem? fun place => ?_
  by_cases inside : place < tree.height hash + 1
  · have within : place < (tree.path hash).reverse.length := by
      rw [List.length_reverse, path, leveled.length_path known]
      exact inside
    obtain ⟨other, here⟩ : ∃ other, (tree.path hash).reverse[place]? = some other :=
      ⟨_, List.getElem?_eq_getElem within⟩
    obtain ⟨member, rfl⟩ := (leveled.getElem?_reverse_path known).mp here
    rw [List.getElem?_map, here, Option.map_some]
    exact filled other member
  · rw [List.getElem?_eq_none (by omega), List.getElem?_eq_none]
    rw [List.length_map, List.length_reverse, path, leveled.length_path known]
    exact not_lt.mp inside

/-- **`FindFork`** finds the highest entry that two paths share. -/
theorem findFork_eq_some (skips : tree.SkipsBuilt)
    (single : ∀ first ∈ tree.hashes, ∀ second ∈ tree.hashes, tree.parent first = none →
      tree.parent second = none → first = second) {tip hash : Uint256}
    (mirrors : tree.Mirrors tip) (tipKnown : tip ∈ tree.hashes) (known : hash ∈ tree.hashes) :
    ∃ fork ∈ tree.path hash, fork ∈ tree.path tip ∧ tree.findFork hash = some fork ∧
      ∀ other ∈ tree.path hash, other ∈ tree.path tip → tree.height other ≤ tree.height fork := by
  have chainHeight : tree.chainHeight = tree.height tip := by
    rw [IndexTree.chainHeight, mirrors, List.length_map, List.length_reverse, path,
      leveled.length_path tipKnown]
    omega
  obtain ⟨start, startMember, starts, whole⟩ : ∃ start ∈ tree.path hash,
      (if (tree.height hash : Int) > tree.chainHeight then tree.getAncestor hash tree.chainHeight
        else some hash) = some start ∧
      ∀ other ∈ tree.path hash, other ∈ tree.path tip → other ∈ tree.path start := by
    split
    · rename_i higher
      rw [chainHeight] at higher ⊢
      obtain ⟨start, member, same, found⟩ :=
        getAncestor_eq_some leveled skips known (Int.ofNat_le.mp higher.le)
      refine ⟨start, member, found, fun other inside ofTip => ?_⟩
      refine leveled.mem_path_of_level_le known inside member ?_
      exact (leveled.level_le tipKnown ofTip).trans same.ge
    · exact ⟨hash, leveled.self_mem_path known, rfl, fun other inside _ => inside⟩
  have startKnown := leveled.known_of_mem_path known startMember
  obtain ⟨root, rootMember, top⟩ := leveled.exists_root startKnown
  obtain ⟨tipRoot, tipRootMember, tipTop⟩ := leveled.exists_root tipKnown
  have same := single root (leveled.known_of_mem_path startKnown rootMember) tipRoot
    (leveled.known_of_mem_path tipKnown tipRootMember) top tipTop
  have contains_iff : ∀ other, tree.contains other = true ↔ other ∈ tree.path tip :=
    fun _ => mirrors.contains_iff leveled tipKnown
  rw [findFork, starts, Option.bind_some]
  cases first : (tree.path start).find? tree.contains with
  | none =>
      rw [List.find?_eq_none] at first
      exact absurd ((contains_iff root).mpr (same ▸ tipRootMember)) (first root rootMember)
  | some fork =>
      have here := List.find?_some first
      obtain ⟨-, before, after, split, none⟩ := List.find?_eq_some_iff_append.mp first
      have forkMember := List.mem_of_find?_eq_some first
      refine ⟨fork, leveled.mem_path_trans known forkMember startMember,
        (contains_iff fork).mp here,
        rfl, fun other inside ofTip => ?_⟩
      have among := whole other inside ofTip
      have ordered := leveled.pairwise_path startKnown
      rw [split] at among
      rw [show ParentTree.path tree.parent tree.height start = before ++ fork :: after from split,
        List.pairwise_append, List.pairwise_cons] at ordered
      rcases List.mem_append.mp among with earlier | later
      · have absent := none other earlier
        rw [(contains_iff other).mpr ofTip] at absent
        cases absent
      · rcases List.mem_cons.mp later with rfl | below
        · exact le_rfl
        · exact (ordered.2.1.1 other below).le

end

/-! ## Facts about the order -/

/-- What the entries are sorted by: more work, then an earlier id, then a lower address. -/
def rank (tree : IndexTree) (address : Uint256 → Nat) (hash : Uint256) :
    Nat ×ₗ (Natᵒᵈ ×ₗ Natᵒᵈ) :=
  toLex ((tree.entry hash).nChainWork.toNat,
    toLex (OrderDual.toDual (tree.entry hash).nSequenceId, OrderDual.toDual (address hash)))

/-- **The comparator compares ranks.** -/
theorem workComparator_iff {address : Uint256 → Nat} {pa pb : Uint256} :
    tree.workComparator address pa pb = true ↔ tree.rank address pa < tree.rank address pb := by
  unfold workComparator rank
  dsimp only
  rw [Prod.Lex.toLex_lt_toLex, Prod.Lex.toLex_lt_toLex, OrderDual.toDual_lt_toDual,
    OrderDual.toDual_lt_toDual, OrderDual.toDual_inj]
  simp only [gt_iff_lt, BitVec.lt_def]
  split
  · simp; omega
  · split
    · simp; omega
    · split
      · simp; omega
      · split
        · simp; omega
        · split
          · simp; omega
          · simp; omega

end IndexTree

end GiantCore
