import GiantCore.BlockIndex.Tree

/-! # The active chain and the tree

`CChain` keeps the path of its tip in a vector that `SetTip` overwrites from the tip down until an
entry is in place. After any calls the vector is the path of the last tip, so that the operations of
the chain are searches in the tree (`setTips_mirrorsTree`).
-/

namespace GiantCore

open GiantCore.Foundation

namespace IndexTree

variable (tree : IndexTree)

/-- `CChain::operator[]`. -/
def chainAt (nHeight : Int) : Option Uint256 :=
  if nHeight < 0 ∨ nHeight ≥ tree.vChain.length then none
  else tree.vChain[nHeight.toNat]?.join

/-- `BuildSkip`: the skip pointer of an entry. -/
def buildSkip (hash : Uint256) : Option Uint256 :=
  (tree.parent hash).bind fun pprev => tree.getAncestor pprev (getSkipHeight (tree.height hash))

/-- The loop of `GetLocator`. -/
def getLocatorLoop : Nat → Option Uint256 → Nat → List Uint256 → List Uint256
  | 0, _, _, vHave => vHave
  | _ + 1, none, _, vHave => vHave
  | rounds + 1, some pindex, nStep, vHave =>
      let vHave := vHave ++ [pindex]
      -- stop when we have added the genesis block
      if tree.height pindex = 0 then vHave
      else
        let nHeight : Int := max ((tree.height pindex : Int) - nStep) 0
        let next := if tree.contains pindex then tree.chainAt nHeight
          else tree.getAncestor pindex nHeight
        getLocatorLoop rounds next (if vHave.length > 10 then nStep * 2 else nStep) vHave

/-- `GetLocator`, by default from the tip. A round goes down at least one block. -/
def getLocator (pindex : Option Uint256) : List Uint256 :=
  let start := pindex.or tree.tip
  tree.getLocatorLoop (start.elim 0 tree.height + 1) start 1 []

/-! ## What the operations are for -/

/-- Some steps along `pprev`. -/
def walk : Nat → Uint256 → Option Uint256
  | 0, hash => some hash
  | steps + 1, hash => (tree.parent hash).bind (walk steps)

/-- The ancestor at a height, step by step. -/
def ancestorAt (hash : Uint256) (height : Int) : Option Uint256 :=
  if height > tree.height hash ∨ height < 0 then none
  else tree.walk (tree.height hash - height.toNat) hash

/-- The highest common ancestor of two entries. -/
structure HighestCommon (first second found : Uint256) : Prop where
  left : found ∈ tree.path first
  right : found ∈ tree.path second
  highest : ∀ other ∈ tree.path first, other ∈ tree.path second →
    tree.height other ≤ tree.height found

/-- Ancestors with falling heights, from an entry to the first block. -/
structure LocatorOf (start : Uint256) (vHave : List Uint256) : Prop where
  head : vHave.head? = some start
  last : ∃ genesis, vHave.getLast? = some genesis ∧ tree.parent genesis = none ∧
    tree.height genesis = 0
  ancestors : ∀ hash ∈ vHave, hash ∈ tree.path start
  falling : vHave.Pairwise fun high low => tree.height low < tree.height high

/-- The chain with a tip is the tree below it. -/
structure MirrorsTree (tip : Option Uint256) : Prop where
  tip_eq : tree.tip = tip
  chainAt_eq : ∀ height, tree.chainAt height = tip.bind fun top => tree.ancestorAt top height
  fork : ∀ hash ∈ tree.hashes, ∀ top ∈ tip, ∃ found, tree.findFork hash = some found ∧
    tree.HighestCommon hash top found
  noFork : tip = none → ∀ hash, tree.findFork hash = none
  locator : ∀ hash ∈ tree.hashes, tree.LocatorOf hash (tree.getLocator (some hash))
  tipLocator : ∀ top ∈ tip, tree.LocatorOf top (tree.getLocator none)
  ancestor : ∀ hash ∈ tree.hashes, ∀ height, tree.getAncestor hash height =
    tree.ancestorAt hash height
  terminates : ∀ hash ∈ tree.hashes, ∀ height rounds : Nat, height ≤ tree.height hash →
    tree.height hash ≤ rounds + height →
      tree.getAncestorLoop height rounds hash (tree.height hash) = tree.ancestorAt hash height

/-! ## Ancestors -/

variable {tree}

/-- Steps along `pprev` find the entry at a height. -/
theorem walk_eq_some (leveled : tree.Leveled) {steps : Nat} {hash : Uint256}
    (known : hash ∈ tree.hashes) (enough : steps ≤ tree.height hash) :
    ∃ found ∈ tree.path hash, tree.height found + steps = tree.height hash ∧
      tree.walk steps hash = some found := by
  induction steps generalizing hash with
  | zero => exact ⟨hash, leveled.self_mem_path known, by omega, rfl⟩
  | succ steps ih =>
      cases above : tree.parent hash with
      | none =>
          have bottom : tree.height hash = 0 := leveled.root hash known above
          omega
      | some up =>
          obtain ⟨upKnown, higher⟩ := leveled.child hash up known above
          obtain ⟨found, member, same, walked⟩ := ih upKnown (by omega)
          refine ⟨found, ?_, by omega, by rw [walk, above, Option.bind_some, walked]⟩
          rw [path, leveled.path_child known above]
          exact List.mem_cons_of_mem _ member

/-- The entry at a height is the only one of the path. -/
theorem ancestorAt_eq_some_iff (leveled : tree.Leveled) {hash found : Uint256}
    (known : hash ∈ tree.hashes) {height : Int} :
    tree.ancestorAt hash height = some found ↔
      found ∈ tree.path hash ∧ (tree.height found : Int) = height := by
  unfold ancestorAt
  split
  · rename_i outside
    refine iff_of_false (by simp) fun ⟨member, same⟩ => ?_
    have below : tree.height found ≤ tree.height hash := leveled.level_le known member
    omega
  · rename_i inside
    obtain ⟨place, rfl⟩ : ∃ place : Nat, height = place := ⟨height.toNat, by omega⟩
    obtain ⟨other, member, same, walked⟩ :=
      walk_eq_some leveled known (Nat.sub_le (tree.height hash) (place : Int).toNat)
    rw [walked, Option.some.injEq]
    rw [Int.toNat_natCast] at same
    constructor
    · rintro rfl
      exact ⟨member, by omega⟩
    · rintro ⟨inside, here⟩
      exact leveled.eq_of_level_eq known member inside
        (show tree.height other = tree.height found by omega)

/-- **The skip list finds what single steps find.** -/
theorem getAncestorLoop_eq_ancestorAt (leveled : tree.Leveled) (skips : tree.SkipsBuilt)
    {hash : Uint256} (known : hash ∈ tree.hashes) {height rounds : Nat}
    (below : height ≤ tree.height hash) (enough : tree.height hash ≤ rounds + height) :
    tree.getAncestorLoop height rounds hash (tree.height hash) = tree.ancestorAt hash height := by
  obtain ⟨found, member, same, loop⟩ := getAncestorLoop_eq_some leveled skips known below enough
  rw [loop, eq_comm, ancestorAt_eq_some_iff leveled known]
  exact ⟨member, congrArg _ same⟩

theorem getAncestor_eq_ancestorAt (leveled : tree.Leveled) (skips : tree.SkipsBuilt)
    {hash : Uint256} (known : hash ∈ tree.hashes) (height : Int) :
    tree.getAncestor hash height = tree.ancestorAt hash height := by
  unfold getAncestor
  split
  · rename_i outside
    rw [ancestorAt, if_pos outside]
  · rename_i inside
    obtain ⟨place, rfl⟩ : ∃ place : Nat, height = place := ⟨height.toNat, by omega⟩
    rw [Int.toNat_natCast]
    exact getAncestorLoop_eq_ancestorAt leveled skips known (by omega) (by omega)

/-! ## Skip pointers -/

/-- The loop of `GetAncestor` reads nothing but the entries. -/
theorem getAncestorLoop_hashes (hashes : List Uint256) (height rounds : Nat) (hash : Uint256)
    (heightWalk : Nat) :
    ({ tree with hashes } : IndexTree).getAncestorLoop height rounds hash heightWalk =
      tree.getAncestorLoop height rounds hash heightWalk := by
  induction rounds generalizing hash heightWalk with
  | zero => rfl
  | succ rounds ih => simp only [getAncestorLoop, ih]

theorem getAncestor_hashes (hashes : List Uint256) (hash : Uint256) (height : Int) :
    ({ tree with hashes } : IndexTree).getAncestor hash height = tree.getAncestor hash height := by
  unfold getAncestor
  rw [getAncestorLoop_hashes]
  rfl

/-- The tree of the entries up to a height. -/
def upTo (tree : IndexTree) (limit : Nat) : IndexTree :=
  { tree with hashes := tree.hashes.filter (tree.height · ≤ limit) }

theorem mem_upTo {limit : Nat} {hash : Uint256} :
    hash ∈ (tree.upTo limit).hashes ↔ hash ∈ tree.hashes ∧ tree.height hash ≤ limit := by
  rw [upTo, List.mem_filter, decide_eq_true_eq]

theorem leveled_upTo (leveled : tree.Leveled) (limit : Nat) : (tree.upTo limit).Leveled where
  root hash known := leveled.root hash (mem_upTo.mp known).1
  child hash up known above := by
    obtain ⟨upKnown, higher⟩ := leveled.child hash up (mem_upTo.mp known).1 above
    have same : tree.height hash = tree.height up + 1 := higher
    have low := (mem_upTo.mp known).2
    exact ⟨mem_upTo.mpr ⟨upKnown, by omega⟩, higher⟩

/-- **Skip pointers that `BuildSkip` has set go to ancestors.** The ancestors of an entry are lower,
so that their pointers are right when its own is set. -/
theorem skipsBuilt_of_buildSkip (leveled : tree.Leveled)
    (built : ∀ hash ∈ tree.hashes, (tree.entry hash).pskip = tree.buildSkip hash) :
    tree.SkipsBuilt := by
  have lower : ∀ limit, (tree.upTo limit).SkipsBuilt := by
    intro limit
    induction limit with
    | zero =>
        intro hash known up above
        have higher : tree.height hash = tree.height up + 1 :=
          (leveled.child hash up (mem_upTo.mp known).1 above).2
        have low := (mem_upTo.mp known).2
        omega
    | succ limit ih =>
        intro hash known up above
        obtain ⟨isKnown, low⟩ := mem_upTo.mp known
        obtain ⟨upKnown, higher⟩ := leveled.child hash up isKnown above
        have height : tree.height hash = tree.height up + 1 := higher
        have parent : tree.parent hash = some up := above
        have down : getSkipHeight (tree.height hash) < tree.height hash :=
          getSkipHeight_lt (by omega)
        have below : getSkipHeight (tree.height hash) ≤ (tree.upTo limit).height up :=
          show getSkipHeight (tree.height hash) ≤ tree.height up by omega
        obtain ⟨skip, member, same, found⟩ := getAncestor_eq_some (leveled_upTo leveled limit) ih
          (mem_upTo.mpr ⟨upKnown, by omega⟩) below
        rw [upTo, getAncestor_hashes] at found
        exact ⟨skip, member,
          (built hash isKnown).trans (by rw [buildSkip, parent, Option.bind_some, found]), same⟩
  intro hash known
  exact lower (tree.height hash) hash (mem_upTo.mpr ⟨known, le_rfl⟩)

/-! ## The chain -/

/-- The vector is the path of a tip, or empty. -/
def Follows (tree : IndexTree) (tip : Option Uint256) : Prop :=
  tip.elim (tree.vChain = []) fun top => top ∈ tree.hashes ∧ tree.Mirrors top

theorem Follows.chainAt_eq {tip : Option Uint256} (follows : tree.Follows tip)
    (leveled : tree.Leveled) (height : Int) :
    tree.chainAt height = tip.bind fun top => tree.ancestorAt top height := by
  cases tip with
  | none =>
      have empty : tree.vChain = [] := follows
      simp [chainAt, empty]
  | some top =>
      obtain ⟨known, mirrors⟩ := follows
      have size : tree.vChain.length = tree.height top + 1 := by
        rw [mirrors, List.length_map, List.length_reverse, path, leveled.length_path known]
      rw [Option.bind_some, chainAt]
      split
      · rename_i outside
        rw [ancestorAt, if_pos (by omega)]
      · rename_i inside
        obtain ⟨place, rfl⟩ : ∃ place : Nat, height = place := ⟨height.toNat, by omega⟩
        obtain ⟨found, member, same, walked⟩ :=
          walk_eq_some leveled known (Nat.sub_le (tree.height top) place)
        have here : tree.vChain[place]? = some (some found) := by
          rw [mirrors, getElem?_mirrors leveled known]
          exact ⟨member, by omega⟩
        rw [Int.toNat_natCast, here, Option.join_some, eq_comm,
          ancestorAt_eq_some_iff leveled known]
        exact ⟨member, by omega⟩

theorem Follows.tip_eq {tip : Option Uint256} (follows : tree.Follows tip)
    (leveled : tree.Leveled) : tree.tip = tip := by
  cases tip with
  | none =>
      have empty : tree.vChain = [] := follows
      simp [IndexTree.tip, empty]
  | some top =>
      exact follows.2.tip_eq leveled follows.1

/-! ## The locator -/

/-- The next entry of a locator is the ancestor at the height that is wanted. -/
theorem Follows.next_eq {tip : Option Uint256} (follows : tree.Follows tip)
    (leveled : tree.Leveled) (skips : tree.SkipsBuilt) {pindex : Uint256}
    (known : pindex ∈ tree.hashes) {place : Nat} (below : place ≤ tree.height pindex) :
    ∃ found ∈ tree.path pindex, tree.height found = place ∧
      (if tree.contains pindex then tree.chainAt place else tree.getAncestor pindex place) =
        some found := by
  split
  · rename_i inside
    rw [follows.chainAt_eq leveled]
    cases tip with
    | none =>
        have empty : tree.vChain = [] := follows
        simp [contains, empty] at inside
    | some top =>
        obtain ⟨topKnown, mirrors⟩ := follows
        have member := (mirrors.contains_iff leveled topKnown).mp inside
        obtain ⟨found, above, same, -⟩ := getAncestor_eq_some leveled skips known below
        refine ⟨found, above, same, ?_⟩
        rw [Option.bind_some, ancestorAt_eq_some_iff leveled topKnown]
        exact ⟨leveled.mem_path_trans topKnown above member, congrArg _ same⟩
  · exact getAncestor_eq_some leveled skips known below

/-- An entry before a locator from below it. -/
theorem LocatorOf.cons (leveled : tree.Leveled) {start next : Uint256} {vHave : List Uint256}
    (known : start ∈ tree.hashes) (member : next ∈ tree.path start)
    (lower : tree.height next < tree.height start) (rest : tree.LocatorOf next vHave) :
    tree.LocatorOf start (start :: vHave) where
  head := rfl
  last := by
    obtain ⟨genesis, last, root⟩ := rest.last
    refine ⟨genesis, ?_, root⟩
    rw [List.getLast?_cons, last]
    rfl
  ancestors hash inside := by
    rcases List.mem_cons.mp inside with rfl | below
    · exact leveled.self_mem_path known
    · exact leveled.mem_path_trans known (rest.ancestors hash below) member
  falling := by
    refine List.pairwise_cons.mpr ⟨fun hash inside => ?_, rest.falling⟩
    have nextKnown := leveled.known_of_mem_path known member
    exact lt_of_le_of_lt (leveled.level_le nextKnown (rest.ancestors hash inside)) lower

/-- **The loop of `GetLocator`** adds a locator of the entry it stands at. -/
theorem Follows.getLocatorLoop_eq {tip : Option Uint256} (follows : tree.Follows tip)
    (leveled : tree.Leveled) (skips : tree.SkipsBuilt) {rounds nStep : Nat} {pindex : Uint256}
    (vHave : List Uint256) (known : pindex ∈ tree.hashes) (steps : 0 < nStep)
    (enough : tree.height pindex < rounds) :
    ∃ more, tree.getLocatorLoop rounds (some pindex) nStep vHave = vHave ++ more ∧
      tree.LocatorOf pindex more := by
  induction rounds generalizing pindex nStep vHave with
  | zero => omega
  | succ rounds ih =>
      unfold getLocatorLoop
      dsimp only
      split
      · rename_i bottom
        have genesis : tree.parent pindex = none := by
          cases above : tree.parent pindex with
          | none => rfl
          | some up =>
              have higher : tree.height pindex = tree.height up + 1 :=
                (leveled.child pindex up known above).2
              omega
        exact ⟨[pindex], rfl, rfl, ⟨pindex, rfl, genesis, bottom⟩,
          fun hash member => by
            rw [List.mem_singleton.mp member]
            exact leveled.self_mem_path known,
          List.pairwise_singleton _ _⟩
      · rename_i above
        have place : max ((tree.height pindex : Int) - nStep) 0 =
            (tree.height pindex - nStep : Nat) := by
          omega
        obtain ⟨found, member, same, next⟩ :=
          follows.next_eq leveled skips known (Nat.sub_le (tree.height pindex) nStep)
        have further : 0 < if (vHave ++ [pindex]).length > 10 then nStep * 2 else nStep := by
          split <;> omega
        rw [place, next]
        obtain ⟨more, whole, locator⟩ :=
          ih _ (leveled.known_of_mem_path known member) further (by omega)
        exact ⟨pindex :: more, by rw [whole, List.append_assoc, List.singleton_append],
          locator.cons leveled known member (by omega)⟩

/-- From the start the loop gives a locator. -/
theorem Follows.getLocatorLoop_start {tip : Option Uint256} (follows : tree.Follows tip)
    (leveled : tree.Leveled) (skips : tree.SkipsBuilt) {pindex : Uint256}
    (known : pindex ∈ tree.hashes) :
    tree.LocatorOf pindex (tree.getLocatorLoop (tree.height pindex + 1) (some pindex) 1 []) := by
  obtain ⟨more, whole, locator⟩ :=
    follows.getLocatorLoop_eq leveled skips [] known Nat.one_pos (Nat.lt_succ_self _)
  rw [whole, List.nil_append]
  exact locator

/-! ## Any calls -/

/-- The chain follows the tip that `SetTip` sets. -/
theorem Follows.setTip {tip : Option Uint256} (follows : tree.Follows tip) (leveled : tree.Leveled)
    (next : Option Uint256) (known : ∀ hash ∈ next, hash ∈ tree.hashes) :
    (tree.setTip next).Follows next := by
  cases next with
  | none => exact rfl
  | some hash =>
      refine ⟨known hash rfl, mirrors_setTip leveled (fun limit => ?_) (known hash rfl)⟩
      cases tip with
      | none =>
          have empty : tree.vChain = [] := follows
          intro place _ other here
          rw [empty, List.getElem?_nil] at here
          cases here
      | some top => exact follows.2.closedBelow leveled follows.1 limit

/-- `SetTip` changes the vector and nothing else. -/
theorem setTip_eq (tip : Option Uint256) :
    tree.setTip tip = { tree with vChain := (tree.setTip tip).vChain } := by
  cases tip <;> rfl

/-- **After any calls** of `SetTip` the chain follows the last tip, in the same tree. -/
theorem Follows.foldl_setTip {tip : Option Uint256} (follows : tree.Follows tip)
    (leveled : tree.Leveled) {calls : List (Option Uint256)}
    (known : ∀ hash, some hash ∈ calls → hash ∈ tree.hashes) :
    (calls.foldl IndexTree.setTip tree).Follows (calls.getLast?.getD tip) ∧
      ∃ vChain, calls.foldl IndexTree.setTip tree = { tree with vChain } := by
  induction calls generalizing tree tip with
  | nil => exact ⟨follows, tree.vChain, rfl⟩
  | cons next rest ih =>
      have started := follows.setTip leveled next fun hash same =>
        known hash (same ▸ List.mem_cons_self)
      rw [setTip_eq next] at started
      obtain ⟨later, vChain, same⟩ := ih started leveled fun hash member =>
        known hash (List.mem_cons_of_mem _ member)
      rw [List.getLast?_cons, Option.getD_some, List.foldl_cons, setTip_eq next]
      exact ⟨later, vChain, same⟩

/-- A chain that follows its tip is the tree below it. -/
theorem Follows.mirrorsTree {tip : Option Uint256} (follows : tree.Follows tip)
    (leveled : tree.Leveled) (skips : tree.SkipsBuilt)
    (single : ∀ first ∈ tree.hashes, ∀ second ∈ tree.hashes, tree.parent first = none →
      tree.parent second = none → first = second) : tree.MirrorsTree tip where
  tip_eq := follows.tip_eq leveled
  chainAt_eq := follows.chainAt_eq leveled
  fork hash known top isTip := by
    cases isTip
    obtain ⟨found, left, right, fork, highest⟩ :=
      findFork_eq_some leveled skips single follows.2 follows.1 known
    exact ⟨found, fork, left, right, highest⟩
  noFork empty hash := by
    subst empty
    have empty : tree.vChain = [] := follows
    have bottom : tree.chainHeight = -1 := by rw [IndexTree.chainHeight, empty]; rfl
    rw [findFork, bottom, if_pos (by omega), getAncestor, if_pos (Or.inr (by decide)),
      Option.bind_none]
  locator hash known := follows.getLocatorLoop_start leveled skips known
  tipLocator top isTip := by
    cases isTip
    rw [getLocator, follows.tip_eq leveled]
    exact follows.getLocatorLoop_start leveled skips follows.1
  ancestor hash known := getAncestor_eq_ancestorAt leveled skips known
  terminates hash known height rounds :=
    getAncestorLoop_eq_ancestorAt leveled skips known

/-- **`CChain` mirrors the block tree.** In a tree with one first block and with the skip pointers
of `BuildSkip`, after any calls of `SetTip` on its entries. -/
theorem setTips_mirrorsTree (tree : IndexTree) (leveled : tree.Leveled)
    (single : ∀ first ∈ tree.hashes, ∀ second ∈ tree.hashes, tree.parent first = none →
      tree.parent second = none → first = second)
    (built : ∀ hash ∈ tree.hashes, (tree.entry hash).pskip = tree.buildSkip hash)
    (fresh : tree.vChain = []) (calls : List (Option Uint256))
    (known : ∀ hash, some hash ∈ calls → hash ∈ tree.hashes) :
    (calls.foldl IndexTree.setTip tree).MirrorsTree calls.getLast?.join := by
  have start : tree.Follows none := fresh
  obtain ⟨follows, vChain, same⟩ := start.foldl_setTip leveled known
  have last : calls.getLast?.getD none = calls.getLast?.join := by
    cases calls.getLast? <;> rfl
  have skips : tree.SkipsBuilt := skipsBuilt_of_buildSkip leveled built
  rw [last, same] at follows
  rw [same]
  exact follows.mirrorsTree leveled skips single

/-- Two branches on the first block, one of two blocks and one of one. -/
def twoBranches : IndexTree where
  hashes := [1, 2, 3, 4]
  entry hash :=
    if hash = 1 then {}
    else if hash = 3 then { pprev := some 2, pskip := some 1, nHeight := 2 }
    else { pprev := some 1, pskip := some 1, nHeight := 1 }

theorem mem_twoBranches {hash : Uint256} :
    hash ∈ twoBranches.hashes ↔ hash = 1 ∨ hash = 2 ∨ hash = 3 ∨ hash = 4 := by
  simp [twoBranches]

theorem leveled_twoBranches : twoBranches.Leveled where
  root hash known root := by
    rcases mem_twoBranches.mp known with rfl | rfl | rfl | rfl
    · rfl
    all_goals cases root
  child hash up known above := by
    rcases mem_twoBranches.mp known with rfl | rfl | rfl | rfl <;> cases above
    all_goals exact ⟨by decide, rfl⟩

/-- The chain is switched from one branch to the other. -/
theorem mirrorsTree_twoBranches :
    ((twoBranches.setTip (some 3)).setTip (some 4)).MirrorsTree (some 4) := by
  refine setTips_mirrorsTree twoBranches leveled_twoBranches ?_ ?_ rfl [some 3, some 4] ?_
  · intro first firstKnown second secondKnown firstRoot secondRoot
    rcases mem_twoBranches.mp firstKnown with rfl | rfl | rfl | rfl
    · rcases mem_twoBranches.mp secondKnown with rfl | rfl | rfl | rfl
      · rfl
      all_goals cases secondRoot
    all_goals cases firstRoot
  · intro hash known
    rcases mem_twoBranches.mp known with rfl | rfl | rfl | rfl <;> rfl
  · intro hash called
    rw [mem_twoBranches]
    simp only [List.mem_cons, Option.some.injEq, List.not_mem_nil, or_false] at called
    exact Or.inr (Or.inr called)

end IndexTree

end GiantCore
