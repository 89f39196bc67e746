import GiantCore.Validation.MerkleRoot
import Mathlib.Data.Nat.Bitwise

/-! # Merkle branches

`GetMerkleBranch` takes the sibling of each node on the way up from the vector of all levels, and
`CheckMerkleBranch` hashes its way up by the bits of the index. At the odd end of a level the
sibling is the node itself. The branch of a transaction leads to the root of its block
(`checkMerkleBranch_getMerkleBranch`).
-/

namespace GiantCore

open GiantCore.Foundation

section

variable (hash : Uint256 → Uint256 → Uint256)

/-- The inner loop of `BuildMerkleTree`, which fails where it reads behind the vector. -/
def hashLevelInRange (j nSize : Nat) :
    Nat → Nat → List Uint256 × Bool → Option (List Uint256 × Bool)
  | 0, _, tree => some tree
  | rounds + 1, i, (vMerkleTree, mutated) =>
      if i < nSize then do
        let i2 := min (i + 1) (nSize - 1)
        let left ← vMerkleTree[j + i]?
        let right ← vMerkleTree[j + i2]?
        let twice := i2 = i + 1 && i2 + 1 = nSize && left = right
        hashLevelInRange j nSize rounds (i + 2) (vMerkleTree ++ [hash left right], mutated || twice)
      else some (vMerkleTree, mutated)

/-- The outer loop of `BuildMerkleTree`, in range. -/
def buildLevelsInRange : Nat → Nat → Nat → List Uint256 × Bool → Option (List Uint256 × Bool)
  | 0, _, _, tree => some tree
  | rounds + 1, j, nSize, tree =>
      if nSize > 1 then do
        let above ← hashLevelInRange hash j nSize nSize 0 tree
        buildLevelsInRange rounds (j + nSize) ((nSize + 1) / 2) above
      else some tree

/-- `vMerkleTree` as `BuildMerkleTree` leaves it. -/
def CBlock.merkleTree (vtx : List CTransaction) : List Uint256 :=
  (buildLevels hash vtx.length 0 vtx.length (vtx.map CTransaction.hash, false)).1

/-- The loop of `GetMerkleBranch`, which fails where it reads behind the vector. -/
def branchFrom (vMerkleTree : List Uint256) (j nSize nIndex : Nat) : Option (List Uint256) :=
  if nSize > 1 then do
    let node ← vMerkleTree[j + min (nIndex ^^^ 1) (nSize - 1)]?
    let rest ← branchFrom vMerkleTree (j + nSize) ((nSize + 1) / 2) (nIndex / 2)
    some (node :: rest)
  else some []
termination_by nSize

/-- `GetMerkleBranch` with the vector as it is: it is built if it is empty. -/
def CBlock.getMerkleBranch (vtx : List CTransaction) (vMerkleTree : List Uint256) (nIndex : Nat) :
    Option (List Uint256) :=
  branchFrom (if vMerkleTree = [] then CBlock.merkleTree hash vtx else vMerkleTree) 0 vtx.length
    nIndex

/-- The loop of `CheckMerkleBranch`. -/
def climb (node : Uint256) : List Uint256 → Int → Uint256
  | [], _ => node
  | sibling :: rest, nIndex =>
      climb (if nIndex % 2 = 1 then hash sibling node else hash node sibling) rest (nIndex / 2)

/-- `CheckMerkleBranch`. -/
def CBlock.checkMerkleBranch (leaf : Uint256) (vMerkleBranch : List Uint256) (nIndex : Int) :
    Uint256 :=
  if nIndex = -1 then 0 else climb hash leaf vMerkleBranch nIndex

/-! ## Reads -/

theorem hashLevelInRange_eq {j nSize : Nat} (rounds i : Nat) {vMerkleTree : List Uint256}
    (mutated : Bool) (room : j + nSize ≤ vMerkleTree.length) :
    hashLevelInRange hash j nSize rounds i (vMerkleTree, mutated) =
      some (hashLevel hash j nSize rounds i (vMerkleTree, mutated)) := by
  induction rounds generalizing i vMerkleTree mutated with
  | zero => rfl
  | succ rounds ih =>
      unfold hashLevelInRange hashLevel
      split
      · rename_i inside
        have left : j + i < vMerkleTree.length := by omega
        have right : j + min (i + 1) (nSize - 1) < vMerkleTree.length := by omega
        simp only [List.getElem?_eq_getElem left, List.getElem?_eq_getElem right,
          List.getD_eq_getElem?_getD, Option.getD_some, Option.bind_eq_bind, Option.bind_some]
        exact ih _ _ (by rw [List.length_append]; omega)
      · rfl

/-- A level with what is built upon it, at one round of the outer loop. -/
theorem hashLevel_whole (before level : List Uint256) (mutated : Bool) :
    hashLevel hash before.length level.length level.length 0 (before ++ level, mutated) =
      (before ++ level ++ MerkleTree.next hash level,
        mutated || MerkleTree.endsTwice level) := by
  have step := hashLevel_eq hash before level level.length 0 [] mutated (by omega)
  rwa [List.append_nil, List.nil_append, List.drop_zero] at step

/-- The tree is built without a read behind the vector. -/
theorem buildLevelsInRange_eq (rounds : Nat) (before level : List Uint256) (mutated : Bool) :
    buildLevelsInRange hash rounds before.length level.length (before ++ level, mutated) =
      some (buildLevels hash rounds before.length level.length (before ++ level, mutated)) := by
  induction rounds generalizing before level mutated with
  | zero => rfl
  | succ rounds ih =>
      unfold buildLevelsInRange buildLevels
      split
      · have size := MerkleTree.length_next hash level
        have place : before.length + level.length = (before ++ level).length :=
          List.length_append.symm
        rw [hashLevelInRange_eq hash _ _ _ (by rw [List.length_append]), hashLevel_whole,
          Option.bind_eq_bind, Option.bind_some, place, ← size]
        exact ih (before ++ level) (MerkleTree.next hash level) _
      · rfl

/-- Every level stays where it was built. -/
theorem buildLevels_prefix (rounds : Nat) (before level : List Uint256) (mutated : Bool) :
    ∃ after, (buildLevels hash rounds before.length level.length (before ++ level, mutated)).1 =
      before ++ level ++ after := by
  induction rounds generalizing before level mutated with
  | zero => exact ⟨[], (List.append_nil _).symm⟩
  | succ rounds ih =>
      unfold buildLevels
      split
      · have size := MerkleTree.length_next hash level
        have place : before.length + level.length = (before ++ level).length :=
          List.length_append.symm
        rw [hashLevel_whole, place, ← size]
        obtain ⟨after, whole⟩ := ih (before ++ level) (MerkleTree.next hash level)
          (mutated || MerkleTree.endsTwice level)
        exact ⟨MerkleTree.next hash level ++ after, by
          rw [whole, List.append_assoc (before ++ level)]⟩
      · exact ⟨[], (List.append_nil _).symm⟩

/-! ## Siblings -/

/-- A node and its sibling are hashed to the node above them. -/
theorem next_of_sibling {level : List Uint256} {i : Nat} (inside : i < level.length) :
    ∃ sibling, level[min (i ^^^ 1) (level.length - 1)]? = some sibling ∧
      (MerkleTree.next hash level)[i / 2]? =
        some (if (i : Int) % 2 = 1 then hash sibling level[i] else hash level[i] sibling) := by
  rw [MerkleTree.getElem?_next]
  by_cases odd : i % 2 = 1
  · have left : i ^^^ 1 = i - 1 := Nat.xor_one_of_odd (Nat.odd_iff.mpr odd)
    have low : i - 1 < level.length := by omega
    have place : min (i ^^^ 1) (level.length - 1) = i - 1 := by omega
    rw [place, show 2 * (i / 2) = i - 1 by omega, show i - 1 + 1 = i by omega,
      List.getElem?_eq_getElem low, List.getElem?_eq_getElem inside]
    exact ⟨_, rfl, by rw [if_pos (by omega : (i : Int) % 2 = 1)]; rfl⟩
  · have right : i ^^^ 1 = i + 1 := Nat.xor_one_of_even (Nat.even_iff.mpr (by omega))
    rw [right, show 2 * (i / 2) = i by omega, List.getElem?_eq_getElem inside]
    by_cases last : i + 1 = level.length
    -- The last node of an odd level is its own sibling.
    · have place : min (i + 1) (level.length - 1) = i := by omega
      rw [place, List.getElem?_eq_getElem inside,
        List.getElem?_eq_none (by omega : level.length ≤ i + 1)]
      exact ⟨_, rfl, by rw [if_neg (by omega : ¬ (i : Int) % 2 = 1)]; rfl⟩
    · have next : i + 1 < level.length := by omega
      have place : min (i + 1) (level.length - 1) = i + 1 := by omega
      rw [place, List.getElem?_eq_getElem next]
      exact ⟨_, rfl, by rw [if_neg (by omega : ¬ (i : Int) % 2 = 1)]; rfl⟩

/-! ## The way up -/

/-- From each node of a level the branch is read in range, and leads to the root. -/
theorem climb_branchFrom (rounds : Nat) (before level : List Uint256) (mutated : Bool) {i : Nat}
    (inside : i < level.length) (enough : level.length ≤ rounds + 1) :
    ∃ branch,
      branchFrom (buildLevels hash rounds before.length level.length
        (before ++ level, mutated)).1 before.length level.length i = some branch ∧
      climb hash level[i] branch i = (buildLevels hash rounds before.length level.length
        (before ++ level, mutated)).1.getLast?.getD 0 := by
  induction rounds generalizing before level mutated i with
  | zero =>
      obtain ⟨top, rfl⟩ := List.length_eq_one_iff.mp (by omega : level.length = 1)
      obtain rfl : i = 0 := by simpa using inside
      refine ⟨[], by rw [branchFrom]; rfl, ?_⟩
      rw [buildLevels, List.getLast?_concat]
      rfl
  | succ rounds ih =>
      obtain ⟨after, whole⟩ := buildLevels_prefix hash (rounds + 1) before level mutated
      by_cases long : level.length > 1
      · obtain ⟨sibling, found, above⟩ := @next_of_sibling hash level i inside
        have size := MerkleTree.length_next hash level
        have shorter := MerkleTree.length_next_lt hash long
        have place : before.length + level.length = (before ++ level).length :=
          List.length_append.symm
        have up : i / 2 < (MerkleTree.next hash level).length := by omega
        have round : buildLevels hash (rounds + 1) before.length level.length
            (before ++ level, mutated) =
              buildLevels hash rounds (before ++ level).length (MerkleTree.next hash level).length
                (before ++ level ++ MerkleTree.next hash level,
                  mutated || MerkleTree.endsTwice level) := by
          rw [buildLevels, if_pos long, hashLevel_whole, place, size]
        obtain ⟨branch, read, root⟩ := ih (before ++ level) (MerkleTree.next hash level)
          (mutated || MerkleTree.endsTwice level) up (by omega)
        have bound : min (i ^^^ 1) (level.length - 1) < level.length := by omega
        have node : (before ++ level ++ after)[before.length + min (i ^^^ 1) (level.length - 1)]? =
            some sibling := by
          rw [List.append_assoc, List.getElem?_append_right (by omega), Nat.add_sub_cancel_left,
            List.getElem?_append_left bound, found]
        refine ⟨sibling :: branch, ?_, ?_⟩
        · rw [← round] at read
          rw [whole] at read ⊢
          rw [branchFrom, if_pos long, node, place, ← size, read]
          rfl
        · rw [← round] at root
          rw [← root, climb]
          rw [List.getElem?_eq_getElem up, Option.some_inj] at above
          rw [above]
          rfl
      · obtain ⟨top, rfl⟩ := List.length_eq_one_iff.mp (by omega : level.length = 1)
        obtain rfl : i = 0 := by simpa using inside
        refine ⟨[], by rw [branchFrom]; rfl, ?_⟩
        rw [buildLevels, if_neg long, List.getLast?_concat]
        rfl

/-- **Merkle branches verify.** The tree of a block is built in range. With an empty vector, or with
that tree in it, the branch of each transaction is read in range, and its check gives the root. -/
theorem checkMerkleBranch_getMerkleBranch (vtx : List CTransaction) (vMerkleTree : List Uint256)
    (cached : vMerkleTree = [] ∨ vMerkleTree = CBlock.merkleTree hash vtx) :
    buildLevelsInRange hash vtx.length 0 vtx.length (vtx.map CTransaction.hash, false) =
        some (buildLevels hash vtx.length 0 vtx.length (vtx.map CTransaction.hash, false)) ∧
      ∀ i : Fin vtx.length, ∃ branch,
        CBlock.getMerkleBranch hash vtx vMerkleTree i = some branch ∧
        CBlock.checkMerkleBranch hash vtx[i].hash branch (i : Nat) =
          (CBlock.buildMerkleTree hash vtx).1 := by
  have size : (vtx.map CTransaction.hash).length = vtx.length := List.length_map _
  refine ⟨?_, fun i => ?_⟩
  · have built := buildLevelsInRange_eq hash vtx.length [] (vtx.map CTransaction.hash) false
    rwa [List.nil_append, size] at built
  · have inside : i.val < (vtx.map CTransaction.hash).length := by
      rw [size]
      exact i.isLt
    have leaf : (vtx.map CTransaction.hash)[i.val] = vtx[i].hash := List.getElem_map _
    obtain ⟨branch, read, root⟩ := climb_branchFrom hash vtx.length []
      (vtx.map CTransaction.hash) false inside (by omega)
    rw [leaf] at root
    rw [List.nil_append, size] at read root
    have tree : (if vMerkleTree = [] then CBlock.merkleTree hash vtx else vMerkleTree) =
        CBlock.merkleTree hash vtx := by
      split
      · rfl
      · rename_i filled
        exact cached.resolve_left filled
    refine ⟨branch, ?_, ?_⟩
    · rw [CBlock.getMerkleBranch, tree]
      exact read
    · rw [CBlock.checkMerkleBranch, if_neg (by omega : ¬ ((i : Nat) : Int) = -1)]
      exact root

end

/-- A block of three transactions. -/
def threeTransactions : List CTransaction :=
  [{ hash := 5, vin := [], vout := [] }, { hash := 7, vin := [], vout := [] },
    { hash := 11, vin := [], vout := [] }]

/-- The last of three transactions, whose level has an odd end. -/
theorem checkMerkleBranch_of_three :
    ∃ branch, CBlock.getMerkleBranch (fun left right => left * 3 + right) threeTransactions [] 2 =
        some branch ∧
      CBlock.checkMerkleBranch (fun left right => left * 3 + right) 11 branch 2 =
        (CBlock.buildMerkleTree (fun left right => left * 3 + right) threeTransactions).1 :=
  (checkMerkleBranch_getMerkleBranch (fun left right => left * 3 + right) threeTransactions []
    (.inl rfl)).2 ⟨2, by decide⟩

end GiantCore
