import GiantCore.Foundation.MerkleTree
import GiantCore.Validation.CheckBlock

/-! # The merkle root of a block

`CBlock::BuildMerkleTree` keeps all levels of the tree in one vector and reports two equal hashes at
the end of a level. `CheckBlock` rejects a block for it. The two results here say what the report is
good for: a root that is built without it has one list of transactions.

The hash of a pair is a parameter. It is assumed to be free of collisions on the pairs that occur.
-/

namespace GiantCore

open GiantCore.Foundation
open GiantCore.Foundation.MerkleTree (Rooted)

section

variable (hash : Uint256 → Uint256 → Uint256)

/-- The inner loop, for at most so many rounds: the hashes of the pairs of the level that starts at
`j`, from place `i` on. -/
def hashLevel (j nSize : Nat) : Nat → Nat → List Uint256 × Bool → List Uint256 × Bool
  | 0, _, tree => tree
  | rounds + 1, i, (vMerkleTree, mutated) =>
      if i < nSize then
        let i2 := min (i + 1) (nSize - 1)
        let left := vMerkleTree.getD (j + i) 0
        let right := vMerkleTree.getD (j + i2) 0
        -- two identical hashes at the end of the list at a particular level
        let twice := i2 = i + 1 && i2 + 1 = nSize && left = right
        hashLevel j nSize rounds (i + 2) (vMerkleTree ++ [hash left right], mutated || twice)
      else (vMerkleTree, mutated)

/-- The outer loop, for at most so many rounds. -/
def buildLevels : Nat → Nat → Nat → List Uint256 × Bool → List Uint256 × Bool
  | 0, _, _, tree => tree
  | rounds + 1, j, nSize, tree =>
      if nSize > 1 then
        buildLevels rounds (j + nSize) ((nSize + 1) / 2) (hashLevel hash j nSize nSize 0 tree)
      else tree

/-- `CBlock::BuildMerkleTree`: the root, and whether the tree is mutated. -/
def CBlock.buildMerkleTree (vtx : List CTransaction) : Uint256 × Bool :=
  let leaves := vtx.map CTransaction.hash
  let (vMerkleTree, mutated) := buildLevels hash vtx.length 0 vtx.length (leaves, false)
  (vMerkleTree.getLast?.getD 0, mutated)

/-- The pairs that are hashed to build the tree of a block. -/
def merklePairs (vtx : List CTransaction) : List (Uint256 × Uint256) :=
  MerkleTree.hashedPairs hash vtx.length (vtx.map CTransaction.hash)

/-! ## The levels in the vector -/

theorem getD_append_level (before level after : List Uint256) {i : Nat}
    (inside : i < level.length) :
    (before ++ level ++ after).getD (before.length + i) 0 = level[i] := by
  rw [List.getD_eq_getElem?_getD, List.append_assoc, List.getElem?_append_right (by omega),
    Nat.add_sub_cancel_left, List.getElem?_append_left inside, List.getElem?_eq_getElem inside,
    Option.getD_some]

theorem hashLevel_eq (before level : List Uint256) (rounds i : Nat) (after : List Uint256)
    (mutated : Bool) (enough : level.length ≤ i + rounds) :
    hashLevel hash before.length level.length rounds i (before ++ level ++ after, mutated) =
      (before ++ level ++ (after ++ MerkleTree.next hash (level.drop i)),
        mutated || MerkleTree.endsTwice (level.drop i)) := by
  induction rounds generalizing i after mutated with
  | zero =>
      rw [hashLevel, List.drop_eq_nil_of_le (by exact enough)]
      simp [MerkleTree.next, MerkleTree.pairs, MerkleTree.endsTwice]
  | succ rounds ih =>
      unfold hashLevel
      split
      · rename_i inside
        have left := getD_append_level before level after inside
        rw [List.drop_eq_getElem_cons inside]
        by_cases single : i + 1 = level.length
        · -- the last node has no neighbour
          have same : min (i + 1) (level.length - 1) = i := by omega
          dsimp only
          rw [same, left, List.append_assoc (before ++ level), ih _ _ _ (by omega),
            List.drop_eq_nil_of_le (by omega : level.length ≤ i + 2),
            List.drop_eq_nil_of_le (by omega : level.length ≤ i + 1)]
          simp [MerkleTree.next, MerkleTree.pairs, MerkleTree.endsTwice]
        · have neighbour : i + 1 < level.length := by omega
          have same : min (i + 1) (level.length - 1) = i + 1 := by omega
          have right := getD_append_level before level after neighbour
          have last : (level.drop (i + 2)).isEmpty = decide (i + 1 + 1 = level.length) := by
            rw [Bool.eq_iff_iff, List.isEmpty_iff, List.drop_eq_nil_iff, decide_eq_true_iff]
            omega
          dsimp only
          rw [same, left, right, List.append_assoc (before ++ level), ih _ _ _ (by omega),
            List.drop_eq_getElem_cons neighbour]
          simp only [MerkleTree.next, MerkleTree.pairs, MerkleTree.endsTwice, List.map_cons, last,
            decide_true, Bool.true_and, List.append_assoc, List.singleton_append, Bool.or_assoc]
      · rename_i done
        rw [List.drop_eq_nil_of_le (not_lt.mp done)]
        simp [MerkleTree.next, MerkleTree.pairs, MerkleTree.endsTwice]

theorem rooted_of_length_le {hashed : Set (Uint256 × Uint256)} (before : List Uint256)
    {level : List Uint256} (some_ : level ≠ []) (short : level.length ≤ 1) :
    Rooted hash hashed level ((before ++ level).getLast?.getD 0) := by
  obtain ⟨top, rfl⟩ := List.length_eq_one_iff.mp
    (le_antisymm short (List.length_pos_iff.mpr some_))
  rw [List.getLast?_concat, Option.getD_some]
  exact .root top

/-- **A tree without the report is plain** at every level below its root. -/
theorem buildLevels_rooted {hashed : Set (Uint256 × Uint256)} (rounds : Nat)
    (before level : List Uint256) (mutated : Bool) (some_ : level ≠ [])
    (enough : level.length ≤ rounds + 1)
    (inside : ∀ both ∈ MerkleTree.hashedPairs hash rounds level, both ∈ hashed)
    (unmutated : (buildLevels hash rounds before.length level.length
      (before ++ level, mutated)).2 = false) :
    mutated = false ∧ Rooted hash hashed level ((buildLevels hash rounds before.length level.length
      (before ++ level, mutated)).1.getLast?.getD 0) := by
  induction rounds generalizing before level mutated with
  | zero => exact ⟨unmutated, rooted_of_length_le hash before some_ enough⟩
  | succ rounds ih =>
      unfold buildLevels at unmutated ⊢
      by_cases long : level.length > 1
      · rw [if_pos long] at unmutated ⊢
        rw [MerkleTree.hashedPairs, if_neg (not_le.mpr long)] at inside
        have step := hashLevel_eq hash before level level.length 0 [] mutated (by omega)
        rw [List.append_nil, List.nil_append, List.drop_zero] at step
        have size := MerkleTree.length_next hash level
        have place : before.length + level.length = (before ++ level).length :=
          List.length_append.symm
        rw [step, place, ← size] at unmutated ⊢
        have shorter := MerkleTree.length_next_lt hash long
        obtain ⟨flags, above⟩ := ih (before ++ level) (MerkleTree.next hash level) _
          (MerkleTree.next_ne_nil hash some_) (by omega)
          (fun both member => inside both (List.mem_append_right _ member)) unmutated
        obtain ⟨unset, plain⟩ := Bool.or_eq_false_iff.mp flags
        exact ⟨unset, .level ⟨long, plain, fun both member =>
          inside both (List.mem_append_left _ member)⟩ above⟩
      · rw [if_neg long] at unmutated ⊢
        exact ⟨unmutated, rooted_of_length_le hash before some_ (not_lt.mp long)⟩

/-- The root is the single node of the first level that has no more. -/
theorem buildLevels_top (rounds : Nat) (before level : List Uint256) (mutated : Bool) (height : Nat)
    (long : ∀ below, below < height → 1 < ((MerkleTree.next hash)^[below] level).length)
    (single : ((MerkleTree.next hash)^[height] level).length = 1) (enough : height ≤ rounds) :
    (buildLevels hash rounds before.length level.length (before ++ level, mutated)).1.getLast? =
      ((MerkleTree.next hash)^[height] level)[0]? := by
  induction rounds generalizing before level mutated height with
  | zero =>
      obtain rfl := Nat.le_zero.mp enough
      obtain ⟨top, same⟩ := List.length_eq_one_iff.mp single
      rw [Function.iterate_zero, id_eq] at same ⊢
      rw [buildLevels, same, List.getLast?_concat]
      rfl
  | succ rounds ih =>
      unfold buildLevels
      cases height with
      | zero =>
          obtain ⟨top, same⟩ := List.length_eq_one_iff.mp single
          rw [Function.iterate_zero, id_eq] at same ⊢
          rw [same, if_neg (by simp), List.getLast?_concat]
          rfl
      | succ height =>
          have first := long 0 (Nat.succ_pos _)
          rw [Function.iterate_zero, id_eq] at first
          have step := hashLevel_eq hash before level level.length 0 [] mutated (by omega)
          rw [List.append_nil, List.nil_append, List.drop_zero] at step
          have size := MerkleTree.length_next hash level
          have place : before.length + level.length = (before ++ level).length :=
            List.length_append.symm
          rw [if_pos first, step, place, ← size]
          exact ih (before ++ level) (MerkleTree.next hash level) _ height
            (fun below small => long (below + 1) (Nat.succ_lt_succ small)) single
            (Nat.le_of_succ_le_succ enough)

/-! ## Binding -/

/-- Pair hashing has no collision in the two trees, and no transaction id is the hash of a pair. -/
structure CollisionFree (first second : List CTransaction) : Prop where
  injective : Set.InjOn (fun both : Uint256 × Uint256 => hash both.1 both.2)
    {both | both ∈ merklePairs hash first ++ merklePairs hash second}
  leaves : ∀ tx ∈ first ++ second, ∀ both ∈ merklePairs hash first ++ merklePairs hash second,
    tx.hash ≠ hash both.1 both.2

variable {hash}

theorem rooted_of_unmutated (hashed : Set (Uint256 × Uint256)) {vtx : List CTransaction}
    (some_ : vtx ≠ []) (inside : ∀ both ∈ merklePairs hash vtx, both ∈ hashed)
    (unmutated : (CBlock.buildMerkleTree hash vtx).2 = false) :
    Rooted hash hashed (vtx.map CTransaction.hash) (CBlock.buildMerkleTree hash vtx).1 := by
  have length : (vtx.map CTransaction.hash).length = vtx.length := List.length_map _
  have built := buildLevels_rooted hash vtx.length [] (vtx.map CTransaction.hash) false
    (fun none => some_ (List.map_eq_nil_iff.mp none)) (by omega) inside
  rw [length] at built
  exact (built unmutated).2

theorem CollisionFree.leaves_eq {first second : List CTransaction}
    (free : CollisionFree hash first second) (someFirst : first ≠ []) (someSecond : second ≠ [])
    (one : (CBlock.buildMerkleTree hash first).2 = false)
    (two : (CBlock.buildMerkleTree hash second).2 = false)
    (same : (CBlock.buildMerkleTree hash first).1 = (CBlock.buildMerkleTree hash second).1) :
    first.map CTransaction.hash = second.map CTransaction.hash := by
  have rootedFirst := rooted_of_unmutated
    {both | both ∈ merklePairs hash first ++ merklePairs hash second} someFirst
    (fun both member => List.mem_append_left _ member) one
  have rootedSecond := rooted_of_unmutated
    {both | both ∈ merklePairs hash first ++ merklePairs hash second} someSecond
    (fun both member => List.mem_append_right _ member) two
  rw [← same] at rootedSecond
  refine MerkleTree.leaves_eq free.injective rootedFirst rootedSecond ?_ ?_ ?_ ?_
  · exact fun none => someFirst (List.map_eq_nil_iff.mp none)
  · exact fun none => someSecond (List.map_eq_nil_iff.mp none)
  · intro leaf member
    obtain ⟨tx, inside, rfl⟩ := List.mem_map.mp member
    exact free.leaves tx (List.mem_append_left _ inside)
  · intro leaf member
    obtain ⟨tx, inside, rfl⟩ := List.mem_map.mp member
    exact free.leaves tx (List.mem_append_right _ inside)

/-- What the merkle rule of `CheckBlock` says about a block that passes it. -/
theorem checkMerkleRoot_eq_ok {node : NodeContext} {block : CBlock} {state : CValidationState}
    (passes : checkMerkleRoot node block true state = .ok ()) :
    block.hashMerkleRoot = (node.buildMerkleTree block.vtx).1 ∧
      (node.buildMerkleTree block.vtx).2 = false := by
  unfold checkMerkleRoot at passes
  rw [if_pos rfl] at passes
  obtain ⟨rule, report⟩ := CValidationState.bind_eq_ok.mp passes
  refine ⟨eq_of_beq (CValidationState.require_eq_ok.mp rule), ?_⟩
  have kept := CValidationState.require_eq_ok.mp report
  rwa [Bool.not_eq_true'] at kept

theorem checkMerkleRoot_of_checkBlock {node : NodeContext} {block : CBlock}
    {state : CValidationState} {nHeight : Option Int}
    (passes : checkBlockBeforePayee node block true state = .ok nHeight) :
    checkMerkleRoot node block true state = .ok () := by
  simp only [checkBlockBeforePayee, CValidationState.bind_eq_ok] at passes
  exact passes.2.2.1

/-- **The mutation report makes the root binding.** Of two lists of different transactions with one
root, one is reported as mutated, and `CheckBlock` lets at most one of them through. -/
theorem merkleRoot_binds (hash : Uint256 → Uint256 → Uint256) (first second : List CTransaction)
    (free : CollisionFree hash first second) (someFirst : first ≠ []) (someSecond : second ≠ [])
    (different : first.map CTransaction.hash ≠ second.map CTransaction.hash) :
    ((CBlock.buildMerkleTree hash first).1 = (CBlock.buildMerkleTree hash second).1 →
      (CBlock.buildMerkleTree hash first).2 = true ∨
        (CBlock.buildMerkleTree hash second).2 = true) ∧
    ∀ (node : NodeContext) (block block' : CBlock) (state state' : CValidationState)
      (nHeight nHeight' : Option Int), node.buildMerkleTree = CBlock.buildMerkleTree hash →
      block.vtx = first → block'.vtx = second → block.hashMerkleRoot = block'.hashMerkleRoot →
      checkBlockBeforePayee node block true state = .ok nHeight →
      checkBlockBeforePayee node block' true state' ≠ .ok nHeight' := by
  constructor
  · intro same
    by_contra unreported
    rw [not_or, Bool.not_eq_true, Bool.not_eq_true] at unreported
    exact different (free.leaves_eq someFirst someSecond unreported.1 unreported.2 same)
  · rintro node block block' state state' nHeight nHeight' builds rfl rfl roots passes passes'
    have rule := checkMerkleRoot_eq_ok (checkMerkleRoot_of_checkBlock passes)
    have rule' := checkMerkleRoot_eq_ok (checkMerkleRoot_of_checkBlock passes')
    rw [builds] at rule rule'
    exact different (free.leaves_eq someFirst someSecond rule.2 rule'.2
      (rule.1.symm.trans (roots.trans rule'.1)))

/-- Transactions with these ids. -/
def transactions (ids : List Uint256) : List CTransaction :=
  ids.map fun hash => { hash, vin := [], vout := [] }

/-- Three transactions, and the same with the last one twice. -/
theorem merkleRoot_binds_repeated :
    (CBlock.buildMerkleTree (fun left right => 1000 * left + right) (transactions [1, 2, 3])).2 =
        true ∨
      (CBlock.buildMerkleTree (fun left right => 1000 * left + right)
        (transactions [1, 2, 3, 3])).2 = true := by
  have hashed : ∀ both, both ∈ merklePairs (fun left right => 1000 * left + right)
      (transactions [1, 2, 3]) ++ merklePairs (fun left right => 1000 * left + right)
        (transactions [1, 2, 3, 3]) → both ∈ [(1, 2), (3, 3), (1002, 3003)] := by
    have one : merklePairs (fun left right => 1000 * left + right) (transactions [1, 2, 3]) =
        [(1, 2), (3, 3), (1002, 3003)] := by decide +kernel
    have two : merklePairs (fun left right => 1000 * left + right) (transactions [1, 2, 3, 3]) =
        [(1, 2), (3, 3), (1002, 3003)] := by decide +kernel
    intro both member
    rw [one, two, List.mem_append, or_self] at member
    exact member
  refine (merkleRoot_binds _ (transactions [1, 2, 3]) (transactions [1, 2, 3, 3]) ⟨?_, ?_⟩
    (List.cons_ne_nil _ _) (List.cons_ne_nil _ _) (by decide +kernel)).1 (by decide +kernel)
  · have distinct : (([(1, 2), (3, 3), (1002, 3003)] : List (Uint256 × Uint256)).map
        fun both => 1000 * both.1 + both.2).Nodup := by decide +kernel
    exact fun both inside other there same =>
      List.inj_on_of_nodup_map distinct (hashed both inside) (hashed other there) same
  · intro tx member both inside same
    -- an id is small, and a hash is not
    have small : tx.hash < 1000 := by
      have ids : ∀ tx ∈ transactions [1, 2, 3] ++ transactions [1, 2, 3, 3], tx.hash < 1000 := by
        decide +kernel
      exact ids tx member
    have large := hashed both inside
    simp only [List.mem_cons, List.not_mem_nil, or_false] at large
    rw [same] at small
    rcases large with rfl | rfl | rfl
    · exact absurd small (by decide +kernel)
    · exact absurd small (by decide +kernel)
    · exact absurd small (by decide +kernel)

end

end GiantCore
