import GiantCore.MerkleBlock.PartialTree

/-! # What a partial merkle tree proves

A peer may send any number of transactions, bits and hashes. When the walk over them ends with the
merkle root of a block, it has gone over the real tree, but with the shape that the claimed number
gives. A node on the right that only the claimed tree has stands for its neighbour on the left, and
nothing rejects two equal hashes there. `BuildMerkleTree` reports them.

So the places of the matched leaves have to be folded onto the real tree. The matches are sound
exactly when no two of them fall on one place.
-/

namespace GiantCore

open GiantCore.Foundation

namespace CPartialMerkleTree

/-- The places of the matched leaves, folded onto a tree of `real` leaves: what the bits say about a
tree of `claimed` leaves, and the bits that are left. -/
def foldedMatches (real claimed : Nat) : Nat → Nat → Nat → List Bool → List Nat × List Bool
  | _, _, _, [] => ([], [])
  | 0, _, place, bit :: rest => (if bit then [place] else [], rest)
  | height + 1, pos, place, bit :: rest =>
      if !bit then ([], rest)
      else
        let left := foldedMatches real claimed height (pos * 2) (place * 2) rest
        let right :=
          if pos * 2 + 1 < calcTreeWidth claimed height then
            -- a node beyond the end of the real level stands for the last one
            foldedMatches real claimed height (pos * 2 + 1) (min (place * 2 + 1)
              (calcTreeWidth real (height + treeHeight real - treeHeight claimed) - 1)) left.2
          else ([], left.2)
        (left.1 ++ right.1, right.2)

def matchedPlaces (real : Nat) (tree : CPartialMerkleTree) : List Nat :=
  (foldedMatches real tree.nTransactions (treeHeight tree.nTransactions) 0 0 tree.vBits).1

section

variable (hash : Uint256 → Uint256 → Uint256)

/-- No other pair has the hash of a pair of the real tree, and no transaction id is the hash of a
pair. -/
structure Unforgeable (vtx : List CTransaction) : Prop where
  pairs : ∀ both ∈ merklePairs hash vtx, ∀ left right,
    hash left right = hash both.1 both.2 → left = both.1 ∧ right = both.2
  leaves : ∀ tx ∈ vtx, ∀ left right, hash left right ≠ tx.hash

/-- A node of the real tree. -/
def node (vtx : List CTransaction) (height pos : Nat) : Uint256 :=
  ((MerkleTree.next hash)^[height] (vtx.map CTransaction.hash)).getD pos 0

variable {hash} {vtx : List CTransaction}

theorem length_realLevel (height : Nat) :
    ((MerkleTree.next hash)^[height] (vtx.map CTransaction.hash)).length =
      calcTreeWidth vtx.length height := by
  rw [length_level, List.length_map]

variable (hash) in
theorem getElem?_realLevel {height pos : Nat} (inside : pos < calcTreeWidth vtx.length height) :
    ((MerkleTree.next hash)^[height] (vtx.map CTransaction.hash))[pos]? =
      some (node hash vtx height pos) := by
  rw [node, List.getD_eq_getElem?_getD, List.getElem?_eq_getElem (by
    rw [length_realLevel]; exact inside), Option.getD_some]

variable (hash) in
/-- A node above the leaves is the hash of its two children, and this pair is hashed when the root
is built. -/
theorem node_succ {height pos : Nat} (inside : pos < calcTreeWidth vtx.length (height + 1))
    (below : height < treeHeight vtx.length) :
    (node hash vtx height (pos * 2),
      node hash vtx height (min (pos * 2 + 1) (calcTreeWidth vtx.length height - 1))) ∈
        merklePairs hash vtx ∧
    node hash vtx (height + 1) pos = hash (node hash vtx height (pos * 2))
      (node hash vtx height (min (pos * 2 + 1) (calcTreeWidth vtx.length height - 1))) := by
  rw [calcTreeWidth_succ] at inside
  have left : ((MerkleTree.next hash)^[height] (vtx.map CTransaction.hash))[2 * pos]? =
      some (node hash vtx height (pos * 2)) := by
    rw [Nat.mul_comm 2 pos]
    exact getElem?_realLevel hash (by omega)
  have right : ((MerkleTree.next hash)^[height] (vtx.map CTransaction.hash))[2 * pos + 1]?.getD
      (node hash vtx height (pos * 2)) =
        node hash vtx height (min (pos * 2 + 1) (calcTreeWidth vtx.length height - 1)) := by
    by_cases wide : pos * 2 + 1 < calcTreeWidth vtx.length height
    · rw [Nat.mul_comm 2 pos, getElem?_realLevel hash wide, Option.getD_some,
        min_eq_left (by omega)]
    · rw [List.getElem?_eq_none (by rw [length_realLevel]; omega), Option.getD_none,
        show min (pos * 2 + 1) (calcTreeWidth vtx.length height - 1) = pos * 2 by omega]
  constructor
  · refine MerkleTree.mem_hashedPairs hash (?_ : height < _) ?_ ?_
    · exact lt_of_lt_of_le below ((findHeight_le _ _ _).trans (by omega))
    · intro lower small
      rw [length_realLevel]
      exact (treeHeight_spec vtx.length).2 lower (by omega)
    · refine List.mem_of_getElem? (i := pos) ?_
      rw [MerkleTree.getElem?_pairs, left, Option.map_some, right]
  · rw [node, Function.iterate_succ_apply', List.getD_eq_getElem?_getD, MerkleTree.getElem?_next,
      left, Option.map_some, right, Option.getD_some]

theorem nodup_realLevel (unforgeable : Unforgeable hash vtx)
    (distinct : (vtx.map CTransaction.hash).Nodup) {height : Nat}
    (below : height ≤ treeHeight vtx.length) :
    ((MerkleTree.next hash)^[height] (vtx.map CTransaction.hash)).Nodup := by
  induction height with
  | zero => exact distinct
  | succ height ih =>
      rw [Function.iterate_succ_apply']
      have nodup := ih (Nat.le_of_succ_le below)
      have pairsNodup := List.Nodup.of_map _
        ((MerkleTree.map_fst_pairs_sublist _).nodup nodup)
      refine pairsNodup.map_on ?_
      intro both inBoth other inOther same
      have hashed : other ∈ merklePairs hash vtx := by
        refine MerkleTree.mem_hashedPairs hash (?_ : height < _) ?_ inOther
        · exact lt_of_lt_of_le below ((findHeight_le _ _ _).trans (by omega))
        · intro lower small
          rw [length_realLevel]
          exact (treeHeight_spec vtx.length).2 lower (by omega)
      obtain ⟨left, right⟩ := unforgeable.pairs other hashed both.1 both.2 same
      exact Prod.ext left right

/-! ## The walk on the real tree -/

variable {tree : CPartialMerkleTree}

theorem takeHash_fBad {isMatch : Bool} {walk : Extraction} (bad : walk.fBad = true) :
    (tree.takeHash isMatch walk).2.fBad = true := by
  unfold takeHash
  split
  · rfl
  · exact bad

/-- A failure stays. -/
theorem traverseAndExtract_fBad (height pos : Nat) {walk : Extraction} (bad : walk.fBad = true) :
    (traverseAndExtract hash tree height pos walk).2.fBad = true := by
  induction height generalizing pos walk with
  | zero =>
      rw [traverseAndExtract]
      split
      · rfl
      · exact takeHash_fBad bad
  | succ height ih =>
      rw [traverseAndExtract]
      dsimp only
      split
      · rfl
      · split
        · exact takeHash_fBad bad
        · have left : (traverseAndExtract hash tree height (pos * 2)
              { walk with nBitsUsed := walk.nBitsUsed + 1 }).2.fBad = true := ih (pos * 2) bad
          split
          · exact ih _ left
          · exact left

/-- What a stop takes, if it does not fail. -/
theorem takeHash_cases {isMatch : Bool} {walk : Extraction}
    (good : (tree.takeHash isMatch walk).2.fBad = false) :
    (tree.takeHash isMatch walk).2.nBitsUsed = walk.nBitsUsed ∧
      (tree.takeHash isMatch walk).2.vMatch =
        walk.vMatch ++ if isMatch then [(tree.takeHash isMatch walk).1] else [] := by
  unfold takeHash at good ⊢
  split
  · rename_i beyond
    rw [if_pos beyond] at good
    cases good
  · refine ⟨rfl, ?_⟩
    cases isMatch with
    | true => rfl
    | false => exact (List.append_nil _).symm

/-- The matches of a walk that ends at a node of the real tree are real nodes at the folded
places. -/
structure OnRealTree (hash : Uint256 → Uint256 → Uint256) (vtx : List CTransaction)
    (tree : CPartialMerkleTree) (before after : Extraction) (places : List Nat × List Bool) :
    Prop where
  matched : after.vMatch = before.vMatch ++ places.1.map
    (node hash vtx (treeHeight vtx.length - treeHeight tree.nTransactions))
  inside : ∀ place ∈ places.1, place <
    calcTreeWidth vtx.length (treeHeight vtx.length - treeHeight tree.nTransactions)
  bits : places.2 = tree.vBits.drop after.nBitsUsed

theorem drop_eq_getD_cons {vBits : List Bool} {k : Nat} (more : ¬ k ≥ vBits.length) :
    vBits.drop k = vBits.getD k false :: vBits.drop (k + 1) := by
  rw [List.drop_eq_getElem_cons (not_le.mp more), List.getD_eq_getElem?_getD,
    List.getElem?_eq_getElem (not_le.mp more), Option.getD_some]

/-- **The walk goes over the real tree.** Where it descends, the real node is no leaf, since it is
the hash of a pair, and the hashes that the walk computes for the two children are the real ones. -/
theorem traverseAndExtract_onRealTree (unforgeable : Unforgeable hash vtx)
    (height pos real place : Nat) (level : real + treeHeight tree.nTransactions =
      height + treeHeight vtx.length) (below : real ≤ treeHeight vtx.length)
    (inside : place < calcTreeWidth vtx.length real) (walk : Extraction)
    (good : (traverseAndExtract hash tree height pos walk).2.fBad = false)
    (ends : (traverseAndExtract hash tree height pos walk).1 = node hash vtx real place) :
    OnRealTree hash vtx tree walk (traverseAndExtract hash tree height pos walk).2
      (foldedMatches vtx.length tree.nTransactions height pos place
        (tree.vBits.drop walk.nBitsUsed)) := by
  induction height generalizing pos real place walk with
  | zero =>
      rw [traverseAndExtract] at good ends ⊢
      by_cases more : walk.nBitsUsed ≥ tree.vBits.length
      · rw [if_pos more] at good
        cases good
      · rw [if_neg more] at good ends ⊢
        rw [drop_eq_getD_cons more]
        generalize tree.vBits.getD walk.nBitsUsed false = bit at good ends ⊢
        dsimp only at good ends ⊢
        obtain ⟨bits, matches_⟩ := takeHash_cases good
        rw [ends] at matches_
        have leaf : treeHeight vtx.length - treeHeight tree.nTransactions = real := by omega
        rw [foldedMatches]
        refine ⟨?_, fun other member => ?_, ?_⟩
        · rw [leaf, matches_]
          cases bit with
          | true => rfl
          | false => rfl
        · rw [leaf]
          cases bit with
          | true =>
              rw [List.mem_singleton.mp member]
              exact inside
          | false => cases member
        · rw [bits]
  | succ height ih =>
      rw [traverseAndExtract] at good ends ⊢
      by_cases more : walk.nBitsUsed ≥ tree.vBits.length
      · rw [if_pos more] at good
        cases good
      · rw [if_neg more] at good ends ⊢
        rw [drop_eq_getD_cons more]
        generalize tree.vBits.getD walk.nBitsUsed false = bit at good ends ⊢
        dsimp only at good ends ⊢
        rw [foldedMatches]
        cases bit with
        | false =>
            rw [Bool.not_false, if_pos rfl] at good ends ⊢
            obtain ⟨bits, matches_⟩ := takeHash_cases good
            rw [if_neg Bool.false_ne_true] at matches_
            rw [if_pos rfl]
            refine ⟨matches_, fun other none => (by cases none), ?_⟩
            rw [bits]
        | true =>
            rw [Bool.not_true, if_neg Bool.false_ne_true] at good ends ⊢
            rw [if_neg Bool.false_ne_true]
            -- a leaf is not the hash of a pair
            obtain ⟨lower, rfl⟩ : ∃ lower, real = lower + 1 := by
              cases real with
              | succ lower => exact ⟨lower, rfl⟩
              | zero =>
                  have leaf := getElem?_realLevel hash inside
                  rw [Function.iterate_zero, id_eq] at leaf
                  obtain ⟨tx, member, same⟩ := List.mem_map.mp (List.mem_of_getElem? leaf)
                  exact absurd (ends.trans same.symm) (unforgeable.leaves tx member _ _)
            obtain ⟨hashed, children⟩ := node_succ hash inside below
            rw [children] at ends
            obtain ⟨leftEnds, rightEnds⟩ := unforgeable.pairs _ hashed _ _ ends
            have leftInside : place * 2 < calcTreeWidth vtx.length lower := by
              rw [calcTreeWidth_succ] at inside
              omega
            have rightInside : min (place * 2 + 1) (calcTreeWidth vtx.length lower - 1) <
                calcTreeWidth vtx.length lower := by
              omega
            have depth :
                height + treeHeight vtx.length - treeHeight tree.nTransactions = lower := by
              omega
            rw [depth]
            have left := ih (pos * 2) lower (place * 2) (by omega) (by omega)
              leftInside { walk with nBitsUsed := walk.nBitsUsed + 1 }
            by_cases wide : pos * 2 + 1 < calcTreeWidth tree.nTransactions height
            · rw [if_pos wide] at good rightEnds ⊢
              dsimp only
              rw [if_pos wide]
              have leftGood : (traverseAndExtract hash tree height (pos * 2)
                  { walk with nBitsUsed := walk.nBitsUsed + 1 }).2.fBad = false := by
                by_contra bad
                rw [traverseAndExtract_fBad height (pos * 2 + 1) (Bool.not_eq_false _ ▸ bad)]
                  at good
                cases good
              obtain ⟨leftMatched, leftPlaces, leftBits⟩ := left leftGood leftEnds
              obtain ⟨rightMatched, rightPlaces, rightBits⟩ := ih (pos * 2 + 1) lower
                (min (place * 2 + 1) (calcTreeWidth vtx.length lower - 1)) (by omega)
                (by omega) rightInside _ good rightEnds
              rw [← leftBits] at rightMatched rightPlaces rightBits
              refine ⟨?_, ?_, rightBits⟩
              · rw [rightMatched, leftMatched, List.append_assoc, ← List.map_append]
              · exact List.forall_mem_append.mpr ⟨leftPlaces, rightPlaces⟩
            · rw [if_neg wide] at good ⊢
              dsimp only
              rw [if_neg wide]
              obtain ⟨leftMatched, leftPlaces, leftBits⟩ := left good leftEnds
              refine ⟨?_, ?_, leftBits⟩
              · rw [leftMatched, List.append_nil]
              · rwa [List.append_nil]

/-- With the right number of transactions, the places are those of the leaves, from left to
right. -/
theorem foldedMatches_sublist (nTransactions height pos : Nat)
    (inside : pos * 2 ^ height < nTransactions) (bits : List Bool) :
    (foldedMatches nTransactions nTransactions height pos pos bits).1.Sublist
      (List.range' (pos * 2 ^ height) (min (2 ^ height) (nTransactions - pos * 2 ^ height))) := by
  induction height generalizing pos bits with
  | zero =>
      have single : min (2 ^ 0) (nTransactions - pos * 2 ^ 0) = 1 := by omega
      rw [single, Nat.pow_zero, Nat.mul_one]
      cases bits with
      | nil => exact List.nil_sublist _
      | cons bit rest =>
          rw [foldedMatches]
          cases bit with
          | true => exact List.Sublist.refl _
          | false => exact List.nil_sublist _
  | succ height ih =>
      cases bits with
      | nil =>
          rw [foldedMatches]
          exact List.nil_sublist _
      | cons bit rest =>
          rw [foldedMatches]
          cases bit with
          | false => exact List.nil_sublist _
          | true =>
              have place : pos * 2 ^ (height + 1) = pos * 2 * 2 ^ height := by ring
              have double : 2 ^ (height + 1) = 2 ^ height + 2 ^ height := by ring
              have right : (pos * 2 + 1) * 2 ^ height = pos * 2 * 2 ^ height + 2 ^ height := by ring
              rw [place] at inside ⊢
              rw [Bool.not_true, if_neg Bool.false_ne_true, Nat.add_sub_cancel]
              dsimp only
              have left := ih (pos * 2) inside rest
              by_cases wide : pos * 2 + 1 < calcTreeWidth nTransactions height
              · have there := lt_calcTreeWidth_iff.mp wide
                rw [right] at there
                have later := ih (pos * 2 + 1) (by rwa [right])
                  (foldedMatches nTransactions nTransactions height (pos * 2) (pos * 2) rest).2
                rw [if_pos wide, min_eq_left (by omega)]
                rw [right] at later
                rw [min_eq_left (by omega)] at left
                have split : min (2 ^ (height + 1)) (nTransactions - pos * 2 * 2 ^ height) =
                    2 ^ height + min (2 ^ height)
                      (nTransactions - (pos * 2 * 2 ^ height + 2 ^ height)) := by
                  omega
                rw [split, ← List.range'_append_1]
                exact left.append later
              · have ends : nTransactions ≤ pos * 2 * 2 ^ height + 2 ^ height := by
                  rw [← right]
                  exact not_lt.mp fun here => wide (lt_calcTreeWidth_iff.mpr here)
                rw [if_neg wide, List.append_nil,
                  show min (2 ^ (height + 1)) (nTransactions - pos * 2 * 2 ^ height) =
                    min (2 ^ height) (nTransactions - pos * 2 * 2 ^ height) by omega]
                exact left

/-- A call that does not fail has gone over the whole tree. -/
theorem extractMatches_of_ne_zero (success : (extractMatches hash tree).1 ≠ 0) :
    extractMatches hash tree =
      ((traverseAndExtract hash tree (treeHeight tree.nTransactions) 0 { fBad := tree.fBad }).1,
        (traverseAndExtract hash tree (treeHeight tree.nTransactions) 0
          { fBad := tree.fBad }).2.vMatch) ∧
    (traverseAndExtract hash tree (treeHeight tree.nTransactions) 0
      { fBad := tree.fBad }).2.fBad = false := by
  unfold extractMatches at success ⊢
  generalize traverseAndExtract hash tree (treeHeight tree.nTransactions) 0 { fBad := tree.fBad } =
    result at success ⊢
  obtain ⟨root, walk⟩ := result
  dsimp only at success ⊢
  split at success
  · exact absurd rfl success
  split at success
  · exact absurd rfl success
  split at success
  · exact absurd rfl success
  split at success
  · exact absurd rfl success
  split at success
  · exact absurd rfl success
  split at success
  · exact absurd rfl success
  split at success
  · exact absurd rfl success
  rename_i one two three four five six seven
  rw [if_neg one, if_neg two, if_neg three, if_neg four, if_neg five, if_neg six, if_neg seven]
  exact ⟨rfl, Bool.not_eq_true _ ▸ five⟩

theorem node_root (some_ : vtx ≠ []) :
    node hash vtx (treeHeight vtx.length) 0 = (CBlock.buildMerkleTree hash vtx).1 := by
  have width := calcTreeWidth_treeHeight (List.length_pos_iff.mpr some_)
  rw [← calcHash_treeHeight hash some_, calcHash_eq]
  · rfl
  · rw [List.length_map, width]
    exact Nat.one_pos

theorem map_node_zero : (List.range' 0 vtx.length).map (node hash vtx 0) =
    vtx.map CTransaction.hash := by
  refine List.ext_getElem (by simp) fun place inRange inside => ?_
  rw [List.getElem_map, List.getElem_range', node, Function.iterate_zero, id_eq,
    List.getD_eq_getElem?_getD, Nat.zero_add, Nat.one_mul, List.getElem?_eq_getElem inside,
    Option.getD_some]

variable (hash) in
/-- **The matches of a partial tree are sound**: none of them is there twice, and with the right
number of transactions they are a part of the list. -/
def Sound (vtx : List CTransaction) (tree : CPartialMerkleTree) : Prop :=
  (extractMatches hash tree).2.Nodup ∧ (tree.nTransactions = vtx.length →
    (extractMatches hash tree).2.Sublist (vtx.map CTransaction.hash))

/-- **When a partial merkle tree with the root of a block is sound**: no two matched leaves fall on
one place of the real tree. Zero is the failure value of the call. -/
theorem sound_iff_nodup_matchedPlaces (hash : Uint256 → Uint256 → Uint256)
    (vtx : List CTransaction) (tree : CPartialMerkleTree) (unforgeable : Unforgeable hash vtx)
    (some_ : vtx ≠ []) (distinct : (vtx.map CTransaction.hash).Nodup)
    (success : (extractMatches hash tree).1 ≠ 0)
    (proves : (extractMatches hash tree).1 = (CBlock.buildMerkleTree hash vtx).1) :
    Sound hash vtx tree ↔ (matchedPlaces vtx.length tree).Nodup := by
  obtain ⟨result, good⟩ := extractMatches_of_ne_zero success
  rw [result, ← node_root some_] at proves
  have width := calcTreeWidth_treeHeight (List.length_pos_iff.mpr some_)
  obtain ⟨matches_, inside, -⟩ := traverseAndExtract_onRealTree unforgeable
    (treeHeight tree.nTransactions) 0 _ _ (Nat.add_comm _ _) (le_refl _)
    (by rw [width]; exact Nat.one_pos) { fBad := tree.fBad } good proves
  rw [List.drop_zero] at matches_ inside
  change _ = [] ++ (matchedPlaces vtx.length tree).map _ at matches_
  change ∀ place ∈ matchedPlaces vtx.length tree, _ at inside
  rw [List.nil_append] at matches_
  have nodes := nodup_realLevel unforgeable distinct
    (Nat.sub_le (treeHeight vtx.length) (treeHeight tree.nTransactions))
  unfold Sound
  rw [result]
  dsimp only
  rw [matches_]
  have injective : ∀ one ∈ matchedPlaces vtx.length tree, ∀ two ∈ matchedPlaces vtx.length tree,
      node hash vtx (treeHeight vtx.length - treeHeight tree.nTransactions) one =
        node hash vtx (treeHeight vtx.length - treeHeight tree.nTransactions) two → one = two := by
    intro one inOne two inTwo same
    refine (List.getElem?_inj (by rw [length_realLevel]; exact inside one inOne) nodes).mp ?_
    rw [getElem?_realLevel hash (inside one inOne),
      getElem?_realLevel hash (inside two inTwo), same]
  constructor
  · exact fun both => List.Nodup.of_map _ both.1
  · refine fun nodup => ⟨nodup.map_on injective, fun same => ?_⟩
    have leaves := foldedMatches_sublist vtx.length (treeHeight vtx.length) 0
      (by rw [Nat.zero_mul]; exact List.length_pos_iff.mpr some_) tree.vBits
    rw [Nat.zero_mul, Nat.sub_zero, min_eq_right (le_two_pow_treeHeight vtx.length)] at leaves
    unfold matchedPlaces
    rw [same, Nat.sub_self]
    refine (leaves.map (node hash vtx 0)).trans ?_
    rw [map_node_zero]

/-- A pair hash that is known where a tree of the ids 1, 2 and 3 needs it. -/
def smallHash (left right : Uint256) : Uint256 :=
  if left = 1 ∧ right = 2 then 10
  else if left = 3 ∧ right = 3 then 11
  else if left = 10 ∧ right = 11 then 12
  else 13

theorem smallHash_cases (left right : Uint256) :
    (smallHash left right = 10 ∧ left = 1 ∧ right = 2) ∨
    (smallHash left right = 11 ∧ left = 3 ∧ right = 3) ∨
    (smallHash left right = 12 ∧ left = 10 ∧ right = 11) ∨
    smallHash left right = 13 := by
  unfold smallHash
  by_cases first : left = 1 ∧ right = 2
  · exact .inl ⟨if_pos first, first⟩
  rw [if_neg first]
  by_cases second : left = 3 ∧ right = 3
  · exact .inr (.inl ⟨if_pos second, second⟩)
  rw [if_neg second]
  by_cases third : left = 10 ∧ right = 11
  · exact .inr (.inr (.inl ⟨if_pos third, third⟩))
  · exact .inr (.inr (.inr (if_neg third)))

theorem unforgeable_smallHash : Unforgeable smallHash (transactions [1, 2, 3]) := by
  have hashed : merklePairs smallHash (transactions [1, 2, 3]) =
      [(1, 2), (3, 3), (10, 11)] := by decide
  constructor
  · rw [hashed]
    intro both member left right same
    have known : (smallHash both.1 both.2 = 10 ∧ both = (1, 2)) ∨
        (smallHash both.1 both.2 = 11 ∧ both = (3, 3)) ∨
        (smallHash both.1 both.2 = 12 ∧ both = (10, 11)) := by
      simp only [List.mem_cons, List.not_mem_nil, or_false] at member
      rcases member with rfl | rfl | rfl
      · exact .inl ⟨by decide, rfl⟩
      · exact .inr (.inl ⟨by decide, rfl⟩)
      · exact .inr (.inr ⟨by decide, rfl⟩)
    have other := smallHash_cases left right
    grind
  · intro tx member left right same
    have ids : ∀ tx ∈ transactions [1, 2, 3], tx.hash ∉ ([10, 11, 12, 13] : List Uint256) := by
      decide
    have other := smallHash_cases left right
    refine ids tx member ?_
    rw [← same]
    simp only [List.mem_cons, List.not_mem_nil, or_false]
    rcases other with other | other | other | other
    · exact .inl other.1
    · exact .inr (.inl other.1)
    · exact .inr (.inr (.inl other.1))
    · exact .inr (.inr (.inr other))

/-- An honest tree in which the first and the last transaction are matched. -/
def honestTree : CPartialMerkleTree :=
  ⟨3, [true, true, true, false, true, true, false, false], [1, 2, 3], false⟩

theorem sound_honest :
    (extractMatches smallHash honestTree).2 = [1, 3] ∧
      Sound smallHash (transactions [1, 2, 3]) honestTree :=
  ⟨by decide +kernel,
    (sound_iff_nodup_matchedPlaces smallHash (transactions [1, 2, 3]) honestTree
      unforgeable_smallHash (List.cons_ne_nil _ _) (by decide) (by decide +kernel)
      (by decide +kernel)).mpr (by decide)⟩

/-- Three transactions that are claimed to be four: the last one is matched twice. -/
theorem not_sound_fourClaimed :
    ¬ ∀ (hash : Uint256 → Uint256 → Uint256) (vtx : List CTransaction) (tree : CPartialMerkleTree),
      Unforgeable hash vtx → vtx ≠ [] → (vtx.map CTransaction.hash).Nodup →
      (extractMatches hash tree).1 ≠ 0 →
      (extractMatches hash tree).1 = (CBlock.buildMerkleTree hash vtx).1 →
      Sound hash vtx tree := by
  intro all
  have sound := all smallHash (transactions [1, 2, 3])
    ⟨4, [true, true, false, false, true, true, true, false], [1, 2, 3, 3], false⟩
    unforgeable_smallHash (List.cons_ne_nil _ _) (by decide) (by decide +kernel)
    (by decide +kernel)
  exact absurd sound.1 (by decide +kernel)

end

end CPartialMerkleTree

end GiantCore
