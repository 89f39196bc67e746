import GiantCore.Validation.MerkleRoot
import Mathlib.Tactic.Ring

/-! # Partial merkle trees

`CPartialMerkleTree` of `merkleblock.cpp`: a depth-first walk over the tree of a block stores a bit
for each node it visits and a hash for each node it stops at. A second walk takes them out again.
Between the two, the bits are packed into bytes.

The walks are recursive on the height. The number of transactions is a natural number; the walk
back refuses numbers beyond `MAX_BLOCK_SIZE_CURRENT / 60`, so that no 32-bit sum wraps around.
-/

namespace GiantCore

open GiantCore.Foundation

structure CPartialMerkleTree where
  nTransactions : Nat := 0
  vBits : List Bool := []
  vHash : List Uint256 := []
  fBad : Bool := true
  deriving DecidableEq, Repr

/-- What a partial tree is on the network. -/
structure SerializedTree where
  nTransactions : Nat
  vHash : List Uint256
  vBytes : List (BitVec 8)
  deriving DecidableEq, Repr

/-- The counters and the matches of the walk back. -/
structure Extraction where
  nBitsUsed : Nat := 0
  nHashUsed : Nat := 0
  vMatch : List Uint256 := []
  fBad : Bool
  deriving DecidableEq, Repr

namespace CPartialMerkleTree

def calcTreeWidth (nTransactions height : Nat) : Nat :=
  (nTransactions + (1 <<< height) - 1) >>> height

/-- The loop that looks for the height of the tree, for at most so many rounds. -/
def findHeight (nTransactions : Nat) : Nat → Nat → Nat
  | 0, nHeight => nHeight
  | rounds + 1, nHeight =>
      if calcTreeWidth nTransactions nHeight > 1 then findHeight nTransactions rounds (nHeight + 1)
      else nHeight

def treeHeight (nTransactions : Nat) : Nat := findHeight nTransactions nTransactions 0

section

variable (hash : Uint256 → Uint256 → Uint256)

def calcHash (vTxid : List Uint256) : Nat → Nat → Uint256
  | 0, pos => vTxid.getD pos 0
  | height + 1, pos =>
      let left := calcHash vTxid height (pos * 2)
      let right :=
        if pos * 2 + 1 < calcTreeWidth vTxid.length height then
          calcHash vTxid height (pos * 2 + 1)
        else left
      hash left right

/-- Whether the node is the parent of at least one matched txid. -/
def parentOfMatch (vMatch : List Bool) (nTransactions height pos : Nat) : Bool :=
  (List.range' (pos <<< height) (1 <<< height)).any fun p =>
    decide (p < nTransactions) && vMatch.getD p false

/-- The bits and the hashes that `TraverseAndBuild` appends. -/
def traverseAndBuild (vTxid : List Uint256) (vMatch : List Bool) (height pos : Nat) :
    List Bool × List Uint256 :=
  let fParentOfMatch := parentOfMatch vMatch vTxid.length height pos
  match height with
  | 0 => ([fParentOfMatch], [calcHash hash vTxid 0 pos])
  | height + 1 =>
      if !fParentOfMatch then ([fParentOfMatch], [calcHash hash vTxid (height + 1) pos])
      else
        let left := traverseAndBuild vTxid vMatch height (pos * 2)
        let right :=
          if pos * 2 + 1 < calcTreeWidth vTxid.length height then
            traverseAndBuild vTxid vMatch height (pos * 2 + 1)
          else ([], [])
        (fParentOfMatch :: (left.1 ++ right.1), left.2 ++ right.2)

/-- The constructor from a list of txids and a mask. -/
def build (vTxid : List Uint256) (vMatch : List Bool) : CPartialMerkleTree :=
  let (vBits, vHash) := traverseAndBuild hash vTxid vMatch (treeHeight vTxid.length) 0
  { nTransactions := vTxid.length, vBits, vHash, fBad := false }

/-- The hash that is stored for a node where the walk stops. -/
def takeHash (tree : CPartialMerkleTree) (matched : Bool) (walk : Extraction) :
    Uint256 × Extraction :=
  if walk.nHashUsed ≥ tree.vHash.length then (0, { walk with fBad := true })
  else
    let stored := tree.vHash.getD walk.nHashUsed 0
    (stored, { walk with
      nHashUsed := walk.nHashUsed + 1
      vMatch := if matched then walk.vMatch ++ [stored] else walk.vMatch })

def traverseAndExtract (tree : CPartialMerkleTree) (height pos : Nat) (walk : Extraction) :
    Uint256 × Extraction :=
  if walk.nBitsUsed ≥ tree.vBits.length then (0, { walk with fBad := true })
  else
    let fParentOfMatch := tree.vBits.getD walk.nBitsUsed false
    let walk := { walk with nBitsUsed := walk.nBitsUsed + 1 }
    match height with
    | 0 => tree.takeHash fParentOfMatch walk
    | height + 1 =>
        if !fParentOfMatch then tree.takeHash false walk
        else
          let (left, walk) := traverseAndExtract tree height (pos * 2) walk
          let (right, walk) :=
            if pos * 2 + 1 < calcTreeWidth tree.nTransactions height then
              traverseAndExtract tree height (pos * 2 + 1) walk
            else (left, walk)
          (hash left right, walk)

/-- `ExtractMatches`: the root, or zero in case of failure, and the matches. -/
def extractMatches (tree : CPartialMerkleTree) : Uint256 × List Uint256 :=
  if tree.nTransactions = 0 then (0, [])
  else if tree.nTransactions > maxBlockSizeCurrent / 60 then (0, [])
  else if tree.vHash.length > tree.nTransactions then (0, [])
  else if tree.vBits.length < tree.vHash.length then (0, [])
  else
    let (hashMerkleRoot, walk) := traverseAndExtract hash tree (treeHeight tree.nTransactions) 0
      { fBad := tree.fBad }
    if walk.fBad then (0, walk.vMatch)
    -- all bits were consumed, except for the padding
    else if (walk.nBitsUsed + 7) / 8 ≠ (tree.vBits.length + 7) / 8 then (0, walk.vMatch)
    else if walk.nHashUsed ≠ tree.vHash.length then (0, walk.vMatch)
    else (hashMerkleRoot, walk.vMatch)

end

/-! ## Bits and bytes -/

/-- The loop over the bits from number `p` on. -/
def packFrom (p : Nat) (vBits : List Bool) (vBytes : List (BitVec 8)) : List (BitVec 8) :=
  match vBits with
  | [] => vBytes
  | bit :: rest =>
      packFrom (p + 1) rest
        (vBytes.modify (p / 8) fun byte => byte ||| ((BitVec.ofBool bit).setWidth 8 <<< (p % 8)))

def packBits (vBits : List Bool) : List (BitVec 8) :=
  packFrom 0 vBits (List.replicate ((vBits.length + 7) / 8) 0)

def unpackBit (vBytes : List (BitVec 8)) (p : Nat) : Bool :=
  (vBytes.getD (p / 8) 0 &&& ((1 : BitVec 8) <<< (p % 8))) != 0

def unpackBits (vBytes : List (BitVec 8)) : List Bool :=
  (List.range (vBytes.length * 8)).map (unpackBit vBytes)

def serialize (tree : CPartialMerkleTree) : SerializedTree :=
  ⟨tree.nTransactions, tree.vHash, packBits tree.vBits⟩

def deserialize (data : SerializedTree) : CPartialMerkleTree where
  nTransactions := data.nTransactions
  vHash := data.vHash
  vBits := unpackBits data.vBytes
  fBad := false

/-- A bit of the bytes. -/
theorem unpackBit_eq (vBytes : List (BitVec 8)) (p : Nat) :
    unpackBit vBytes p = (vBytes.getD (p / 8) 0).getLsbD (p % 8) := by
  have small : p % 8 < 8 := Nat.mod_lt _ (by decide)
  unfold unpackBit
  rw [show (1 : BitVec 8) <<< (p % 8) = BitVec.twoPow 8 (p % 8) from (BitVec.twoPow_eq _ _).symm,
    BitVec.and_twoPow]
  cases (vBytes.getD (p / 8) 0).getLsbD (p % 8) with
  | false => rfl
  | true =>
      rw [if_pos rfl, bne_iff_ne]
      intro zero
      have bit := congrArg (BitVec.getLsbD · (p % 8)) zero
      simp [small] at bit

/-- Packing bits keeps the number of bytes. -/
theorem length_packFrom (p : Nat) (vBits : List Bool) (vBytes : List (BitVec 8)) :
    (packFrom p vBits vBytes).length = vBytes.length := by
  induction vBits generalizing p vBytes with
  | nil => rfl
  | cons bit rest ih => rw [packFrom, ih, List.length_modify]

/-- One round sets one bit. -/
theorem unpackBit_modify {vBytes : List (BitVec 8)} {p : Nat} (inside : p / 8 < vBytes.length)
    (bit : Bool) (q : Nat) :
    unpackBit (vBytes.modify (p / 8) fun byte =>
        byte ||| ((BitVec.ofBool bit).setWidth 8 <<< (p % 8))) q =
      (unpackBit vBytes q || (decide (q = p) && bit)) := by
  have small : q % 8 < 8 := Nat.mod_lt _ (by decide)
  rw [unpackBit_eq, unpackBit_eq, List.getD_eq_getElem?_getD, List.getD_eq_getElem?_getD,
    List.getElem?_modify]
  by_cases byte : p / 8 = q / 8
  · simp only [if_pos byte]
    rw [← byte, List.getElem?_eq_getElem inside, Option.map_eq_map, Option.map_some,
      Option.getD_some, Option.getD_some, BitVec.getLsbD_or, BitVec.getLsbD_shiftLeft]
    congr 1
    rw [decide_eq_true small, Bool.true_and, BitVec.getLsbD_setWidth, BitVec.getLsbD_ofBool]
    by_cases same : q = p
    · subst same
      simp
    · have other : ¬ (q % 8 - p % 8 = 0 ∧ ¬ q % 8 < p % 8) := by omega
      rw [decide_eq_false same, Bool.false_and]
      simp only [Bool.and_eq_false_iff, Bool.not_eq_false', decide_eq_false_iff_not,
        decide_eq_true_eq]
      omega
  · have different : q ≠ p := fun same => byte (same ▸ rfl)
    rw [decide_eq_false different]
    simp [if_neg byte]

/-- The packed bits are there, and the others stay. -/
theorem unpackBit_packFrom (p : Nat) (vBits : List Bool) (vBytes : List (BitVec 8))
    (enough : p + vBits.length ≤ 8 * vBytes.length) (q : Nat) :
    unpackBit (packFrom p vBits vBytes) q =
      (unpackBit vBytes q || (decide (p ≤ q) && vBits.getD (q - p) false)) := by
  induction vBits generalizing p vBytes with
  | nil => simp [packFrom]
  | cons bit rest ih =>
      rw [List.length_cons] at enough
      rw [packFrom, ih _ _ (by rw [List.length_modify]; omega), unpackBit_modify (by omega),
        Bool.or_assoc]
      congr 1
      by_cases before : q < p
      · rw [decide_eq_false (by omega), decide_eq_false (by omega : ¬ p + 1 ≤ q),
          decide_eq_false (by omega)]
        rfl
      · by_cases same : q = p
        · subst same
          simp
        · obtain ⟨k, rfl⟩ : ∃ k, q = p + 1 + k := ⟨q - (p + 1), by omega⟩
          rw [decide_eq_false same, decide_eq_true (by omega), decide_eq_true (by omega),
            show p + 1 + k - (p + 1) = k by omega, show p + 1 + k - p = k + 1 by omega]
          rfl

/-- **Packed bits come back**, with zeros up to a whole number of bytes. -/
theorem unpackBits_packBits (vBits : List Bool) :
    unpackBits (packBits vBits) =
      vBits ++ List.replicate (8 * ((vBits.length + 7) / 8) - vBits.length) false := by
  have length : (packBits vBits).length = (vBits.length + 7) / 8 := by
    rw [packBits, length_packFrom, List.length_replicate]
  refine List.ext_getElem? fun q => ?_
  unfold unpackBits
  rw [List.getElem?_map, length]
  by_cases inside : q < (vBits.length + 7) / 8 * 8
  · rw [List.getElem?_range inside, Option.map_some, packBits, unpackBit_packFrom _ _ _
      (by rw [List.length_replicate]; omega)]
    have empty : unpackBit (List.replicate ((vBits.length + 7) / 8) (0 : BitVec 8)) q = false := by
      rw [unpackBit_eq, List.getD_eq_getElem?_getD, List.getElem?_replicate]
      split <;> exact BitVec.getLsbD_zero
    rw [empty, Bool.false_or, decide_eq_true (Nat.zero_le q), Bool.true_and, Nat.sub_zero,
      List.getElem?_append]
    split
    · rename_i real
      rw [List.getD_eq_getElem?_getD, List.getElem?_eq_getElem real, Option.getD_some]
    · rename_i padding
      rw [List.getD_eq_getElem?_getD, List.getElem?_eq_none (not_lt.mp padding),
        List.getElem?_replicate, if_pos (by omega), Option.getD_none]
  · rw [List.getElem?_eq_none (by rw [List.length_range]; omega), Option.map_none,
      List.getElem?_eq_none]
    rw [List.length_append, List.length_replicate]
    omega

/-! ## The shape of the tree -/

/-- The nodes of a level are those with a leaf below them. -/
theorem lt_calcTreeWidth_iff {nTransactions height pos : Nat} :
    pos < calcTreeWidth nTransactions height ↔ pos * 2 ^ height < nTransactions := by
  have positive : 0 < 2 ^ height := Nat.two_pow_pos height
  unfold calcTreeWidth
  rw [Nat.shiftRight_eq_div_pow, Nat.one_shiftLeft, ← Nat.succ_le_iff,
    Nat.le_div_iff_mul_le positive,
    Nat.succ_mul]
  omega

/-- The height that is found is the first at which one node is left. -/
theorem findHeight_spec (nTransactions rounds nHeight : Nat)
    (enough : nTransactions ≤ 2 ^ (nHeight + rounds)) :
    calcTreeWidth nTransactions (findHeight nTransactions rounds nHeight) ≤ 1 ∧
      ∀ height, nHeight ≤ height → height < findHeight nTransactions rounds nHeight →
        1 < calcTreeWidth nTransactions height := by
  induction rounds generalizing nHeight with
  | zero =>
      refine ⟨?_, fun height _ _ => ?_⟩
      · rw [findHeight]
        by_contra wide
        have above := lt_calcTreeWidth_iff.mp (not_le.mp wide)
        rw [Nat.one_mul] at above
        exact absurd enough (not_le.mpr above)
      · rename_i low high
        rw [findHeight] at high
        omega
  | succ rounds ih =>
      rw [findHeight]
      split
      · rename_i wide
        obtain ⟨narrow, below⟩ := ih (nHeight + 1) (by rwa [Nat.add_right_comm])
        refine ⟨narrow, fun height low high => ?_⟩
        rcases Nat.eq_or_lt_of_le low with rfl | above
        · exact wide
        · exact below height above high
      · rename_i narrow
        exact ⟨not_lt.mp narrow, fun height low high => by omega⟩

/-- The height of the tree is the first at which one node is left. -/
theorem treeHeight_spec (nTransactions : Nat) :
    calcTreeWidth nTransactions (treeHeight nTransactions) ≤ 1 ∧
      ∀ height, height < treeHeight nTransactions → 1 < calcTreeWidth nTransactions height := by
  obtain ⟨narrow, below⟩ := findHeight_spec nTransactions nTransactions 0
    (by rw [Nat.zero_add]; exact Nat.lt_two_pow_self.le)
  exact ⟨narrow, fun height => below height (Nat.zero_le _)⟩

/-- All leaves are below the root. -/
theorem le_two_pow_treeHeight (nTransactions : Nat) :
    nTransactions ≤ 2 ^ treeHeight nTransactions := by
  have narrow := (treeHeight_spec nTransactions).1
  by_contra wide
  have above : 1 < calcTreeWidth nTransactions (treeHeight nTransactions) := by
    rw [lt_calcTreeWidth_iff, Nat.one_mul]
    exact not_le.mp wide
  omega

/-! ## The walk there and back -/

section

variable (hash : Uint256 → Uint256 → Uint256)

/-- The ids below a node, with their places in the mask. -/
def below (vTxid : List Uint256) (vMatch : List Bool) (height pos : Nat) :
    List (Uint256 × Bool) :=
  ((vTxid.zip vMatch).drop (pos * 2 ^ height)).take (2 ^ height)

/-- The matched ids among them, in order. -/
def matched (leaves : List (Uint256 × Bool)) : List Uint256 :=
  (leaves.filter Prod.snd).map Prod.fst

/-- The matches of two parts. -/
theorem matched_append (first second : List (Uint256 × Bool)) :
    matched (first ++ second) = matched first ++ matched second := by
  rw [matched, List.filter_append, List.map_append]
  rfl

variable {vTxid : List Uint256} {vMatch : List Bool} (sameLength : vMatch.length = vTxid.length)

/-- The leaves of a node are those of its two children. -/
theorem below_succ (vTxid : List Uint256) (vMatch : List Bool) (height pos : Nat) :
    below vTxid vMatch (height + 1) pos =
      below vTxid vMatch height (pos * 2) ++ below vTxid vMatch height (pos * 2 + 1) := by
  unfold below
  rw [show pos * 2 ^ (height + 1) = pos * 2 * 2 ^ height by ring,
    show (pos * 2 + 1) * 2 ^ height = pos * 2 * 2 ^ height + 2 ^ height by ring,
    show 2 ^ (height + 1) = 2 ^ height + 2 ^ height by ring, List.take_add, List.drop_drop]

include sameLength in
/-- A node outside the tree has no leaves. -/
theorem below_eq_nil {height pos : Nat} (outside : vTxid.length ≤ pos * 2 ^ height) :
    below vTxid vMatch height pos = [] := by
  unfold below
  rw [List.drop_eq_nil_of_le, List.take_nil]
  rw [List.length_zip, sameLength, min_self]
  exact outside

include sameLength in
/-- A node is a parent of a match if a leaf of it is one. -/
theorem parentOfMatch_eq (height pos : Nat) :
    parentOfMatch vMatch vTxid.length height pos =
      (below vTxid vMatch height pos).any Prod.snd := by
  rw [Bool.eq_iff_iff, parentOfMatch, below, List.any_eq_true, List.any_eq_true]
  rw [Nat.shiftLeft_eq, Nat.one_shiftLeft]
  constructor
  · rintro ⟨p, member, test⟩
    obtain ⟨k, small, rfl⟩ := List.mem_range'.mp member
    obtain ⟨inside, flag⟩ := Bool.and_eq_true_iff.mp test
    have here := of_decide_eq_true inside
    rw [Nat.one_mul] at here flag
    rw [List.getD_eq_getElem?_getD, List.getElem?_eq_getElem (by omega), Option.getD_some] at flag
    refine ⟨(vTxid[pos * 2 ^ height + k], true), ?_, rfl⟩
    refine List.mem_of_getElem? (i := k) ?_
    rw [List.getElem?_take_of_lt small, List.getElem?_drop, List.getElem?_zip_eq_some]
    exact ⟨List.getElem?_eq_getElem here, flag ▸ List.getElem?_eq_getElem (by omega)⟩
  · rintro ⟨leaf, member, flag⟩
    obtain ⟨k, there⟩ := List.getElem?_of_mem member
    rw [List.getElem?_take] at there
    split at there
    · rename_i small
      rw [List.getElem?_drop, List.getElem?_zip_eq_some] at there
      refine ⟨pos * 2 ^ height + k, List.mem_range'.mpr ⟨k, small, by omega⟩, ?_⟩
      have here := (List.getElem?_eq_some_iff.mp there.1).1
      rw [decide_eq_true here, List.getD_eq_getElem?_getD, there.2]
      exact flag
    · cases there

/-- Leaves without a match. -/
theorem matched_eq_nil {leaves : List (Uint256 × Bool)} (none_ : leaves.any Prod.snd = false) :
    matched leaves = [] := by
  rw [matched, List.map_eq_nil_iff, List.filter_eq_nil_iff]
  intro leaf member flag
  rw [List.any_eq_false] at none_
  exact none_ leaf member flag

/-- Bits and hashes are next in a partial tree. -/
structure Ahead (tree : CPartialMerkleTree) (walk : Extraction)
    (stored : List Bool × List Uint256) : Prop where
  bits : stored.1 <+: tree.vBits.drop walk.nBitsUsed
  hashes : stored.2 <+: tree.vHash.drop walk.nHashUsed

/-- The walk after it has taken bits and hashes, and matches. -/
def advance (walk : Extraction) (stored : List Bool × List Uint256)
    (vMatch : List Uint256) : Extraction :=
  { walk with
    nBitsUsed := walk.nBitsUsed + stored.1.length
    nHashUsed := walk.nHashUsed + stored.2.length
    vMatch := walk.vMatch ++ vMatch }

/-- The next item is read where the rest begins. -/
theorem getD_of_prefix_drop {α : Type} {first : α} (default : α) {rest all : List α} {k : Nat}
    (ahead : first :: rest <+: all.drop k) :
    k < all.length ∧ all.getD k default = first ∧ rest <+: all.drop (k + 1) := by
  obtain ⟨after, split⟩ := ahead
  have some_ : k < all.length := by
    by_contra outside
    rw [List.drop_eq_nil_of_le (not_lt.mp outside)] at split
    cases split
  rw [List.drop_eq_getElem_cons some_, List.cons_append, List.cons.injEq] at split
  refine ⟨some_, ?_, after, split.2⟩
  rw [List.getD_eq_getElem?_getD, List.getElem?_eq_getElem some_, Option.getD_some, split.1]

/-- The second part begins behind the first. -/
theorem prefix_drop_append {α : Type} {first second all : List α} {k : Nat}
    (ahead : first ++ second <+: all.drop k) :
    first <+: all.drop k ∧ second <+: all.drop (k + first.length) := by
  obtain ⟨after, split⟩ := ahead
  refine ⟨⟨second ++ after, by rw [← split, List.append_assoc]⟩, after, ?_⟩
  rw [← List.drop_drop, ← split, List.append_assoc, List.drop_left]

/-- The walk stops at a node whose hash is next. -/
theorem takeHash_eq {tree : CPartialMerkleTree} (walk : Extraction) {stored : Uint256}
    (ahead : [stored] <+: tree.vHash.drop walk.nHashUsed) (isMatch : Bool) :
    tree.takeHash isMatch walk = (stored, { walk with
      nHashUsed := walk.nHashUsed + 1
      vMatch := if isMatch then walk.vMatch ++ [stored] else walk.vMatch }) := by
  obtain ⟨inside, value, -⟩ := getD_of_prefix_drop 0 ahead
  rw [takeHash, if_neg (not_le.mpr inside)]
  dsimp only
  rw [value]

include sameLength in
/-- **The walk back takes what the walk there stored**, computes the hash of the node and finds the
matched ids below it. -/
theorem traverseAndExtract_build (tree : CPartialMerkleTree)
    (size : tree.nTransactions = vTxid.length) (height pos : Nat)
    (inside : pos * 2 ^ height < vTxid.length) (walk : Extraction)
    (ahead : Ahead tree walk (traverseAndBuild hash vTxid vMatch height pos)) :
    traverseAndExtract hash tree height pos walk =
      (calcHash hash vTxid height pos,
        advance walk (traverseAndBuild hash vTxid vMatch height pos)
          (matched (below vTxid vMatch height pos))) := by
  have flagged := parentOfMatch_eq sameLength
  induction height generalizing pos walk with
  | zero =>
      rw [traverseAndBuild.eq_def] at ahead ⊢
      obtain ⟨bits, hashes⟩ := ahead
      obtain ⟨some_, flag, -⟩ := getD_of_prefix_drop false bits
      have leaf : below vTxid vMatch 0 pos = [(vTxid.getD pos 0, vMatch.getD pos false)] := by
        have here : pos < vTxid.length := by omega
        unfold below
        rw [Nat.pow_zero, Nat.mul_one, List.drop_eq_getElem_cons (by
          rw [List.length_zip, sameLength, min_self]; exact here), List.getElem_zip,
          List.getD_eq_getElem?_getD, List.getD_eq_getElem?_getD, List.getElem?_eq_getElem here,
          List.getElem?_eq_getElem (by omega)]
        rfl
      have isMatch := flagged 0 pos
      rw [leaf, List.any_cons, List.any_nil, Bool.or_false] at isMatch
      rw [traverseAndExtract, if_neg (not_le.mpr some_)]
      dsimp only
      rw [flag, takeHash_eq { walk with nBitsUsed := walk.nBitsUsed + 1 } hashes, isMatch, leaf,
        advance]
      cases vMatch.getD pos false with
      | true => rfl
      | false => simp [matched]
  | succ height ih =>
      rw [traverseAndBuild.eq_def] at ahead ⊢
      dsimp only at ahead ⊢
      have children := below_succ vTxid vMatch height pos
      cases flag : parentOfMatch vMatch vTxid.length (height + 1) pos with
      | false =>
          rw [flag] at ahead
          obtain ⟨bits, hashes⟩ := ahead
          obtain ⟨some_, stop, -⟩ := getD_of_prefix_drop false bits
          have none_ := flagged (height + 1) pos
          rw [flag] at none_
          rw [traverseAndExtract, if_neg (not_le.mpr some_)]
          dsimp only
          rw [stop, Bool.not_false, if_pos rfl, if_pos rfl,
            takeHash_eq { walk with nBitsUsed := walk.nBitsUsed + 1 } hashes,
            matched_eq_nil none_.symm, advance, List.append_nil]
          rfl
      | true =>
          rw [flag, Bool.not_true, if_neg Bool.false_ne_true] at ahead
          rw [Bool.not_true, if_neg Bool.false_ne_true]
          obtain ⟨bits, hashes⟩ := ahead
          obtain ⟨some_, go, later⟩ := getD_of_prefix_drop false bits
          obtain ⟨leftBits, rightBits⟩ := prefix_drop_append later
          obtain ⟨leftHashes, rightHashes⟩ := prefix_drop_append hashes
          have leftInside : pos * 2 * 2 ^ height < vTxid.length := by
            rwa [show pos * 2 * 2 ^ height = pos * 2 ^ (height + 1) by ring]
          have left := ih (pos * 2) leftInside
            { walk with nBitsUsed := walk.nBitsUsed + 1 } ⟨leftBits, leftHashes⟩
          rw [traverseAndExtract, if_neg (not_le.mpr some_)]
          dsimp only
          rw [go, Bool.not_true, if_neg Bool.false_ne_true, left, size, calcHash, children,
            matched_append]
          dsimp only
          by_cases wide : pos * 2 + 1 < calcTreeWidth vTxid.length height
          · rw [if_pos wide] at rightBits rightHashes
            have right := ih (pos * 2 + 1) (lt_calcTreeWidth_iff.mp wide)
              (advance { walk with nBitsUsed := walk.nBitsUsed + 1 }
                (traverseAndBuild hash vTxid vMatch height (pos * 2))
                (matched (below vTxid vMatch height (pos * 2)))) ⟨rightBits, rightHashes⟩
            rw [if_pos wide, if_pos wide, if_pos wide, right]
            simp only [advance, List.length_cons, List.length_append, List.append_assoc,
              Nat.add_assoc, Nat.add_comm 1]
          · have none_ := below_eq_nil sameLength
              (not_lt.mp fun here => wide (lt_calcTreeWidth_iff.mpr here))
            rw [if_neg wide, if_neg wide, if_neg wide, none_]
            simp only [advance, matched, List.filter_nil, List.map_nil, List.append_nil,
              List.length_cons, Nat.add_assoc, Nat.add_comm 1]

/-! ## The round trip -/

/-- Each level has half as many nodes, rounded up. -/
theorem calcTreeWidth_succ (nTransactions height : Nat) :
    calcTreeWidth nTransactions (height + 1) = (calcTreeWidth nTransactions height + 1) / 2 := by
  refine eq_of_forall_lt_iff fun pos => ?_
  rw [lt_calcTreeWidth_iff, Nat.pow_succ,
    show pos * (2 ^ height * 2) = pos * 2 * 2 ^ height by ring,
    ← lt_calcTreeWidth_iff]
  omega

/-- The width of a level. -/
theorem length_level (vTxid : List Uint256) (height : Nat) :
    ((MerkleTree.next hash)^[height] vTxid).length = calcTreeWidth vTxid.length height := by
  induction height with
  | zero =>
      rw [Function.iterate_zero, id_eq]
      exact (Nat.add_sub_cancel _ _).symm
  | succ height ih =>
      rw [Function.iterate_succ_apply', MerkleTree.length_next, ih, calcTreeWidth_succ]

/-- `CalcHash` is a node of the tree that `BuildMerkleTree` builds. -/
theorem calcHash_eq (vTxid : List Uint256) (height pos : Nat)
    (inside : pos < calcTreeWidth vTxid.length height) :
    calcHash hash vTxid height pos = ((MerkleTree.next hash)^[height] vTxid).getD pos 0 := by
  induction height generalizing pos with
  | zero => rfl
  | succ height ih =>
      rw [calcTreeWidth_succ] at inside
      have leftInside : 2 * pos < calcTreeWidth vTxid.length height := by omega
      have left : ((MerkleTree.next hash)^[height] vTxid)[2 * pos]? =
          some (calcHash hash vTxid height (pos * 2)) := by
        rw [ih (pos * 2) (by omega), List.getD_eq_getElem?_getD, Nat.mul_comm pos 2,
          List.getElem?_eq_getElem (by rw [length_level]; exact leftInside), Option.getD_some]
      rw [Function.iterate_succ_apply', List.getD_eq_getElem?_getD, MerkleTree.getElem?_next, left,
        Option.map_some, Option.getD_some, calcHash]
      congr 1
      by_cases wide : pos * 2 + 1 < calcTreeWidth vTxid.length height
      · rw [if_pos wide, ih _ wide, List.getD_eq_getElem?_getD, Nat.mul_comm pos 2,
          List.getElem?_eq_getElem (by rw [length_level, Nat.mul_comm 2 pos]; exact wide)]
        rfl
      · rw [if_neg wide, List.getElem?_eq_none (by rw [length_level]; omega), Option.getD_none]

/-- The height that is found is among those that are tried. -/
theorem findHeight_le (nTransactions rounds nHeight : Nat) :
    findHeight nTransactions rounds nHeight ≤ nHeight + rounds := by
  induction rounds generalizing nHeight with
  | zero => exact le_refl _
  | succ rounds ih =>
      rw [findHeight]
      split
      · exact (ih (nHeight + 1)).trans (by omega)
      · omega

/-- At the top one node is left. -/
theorem calcTreeWidth_treeHeight {nTransactions : Nat} (positive : 0 < nTransactions) :
    calcTreeWidth nTransactions (treeHeight nTransactions) = 1 := by
  have narrow := (treeHeight_spec nTransactions).1
  have some_ : 0 < calcTreeWidth nTransactions (treeHeight nTransactions) :=
    lt_calcTreeWidth_iff.mpr (by rwa [Nat.zero_mul])
  omega

/-- The hash of the top node is the merkle root of the block. -/
theorem calcHash_treeHeight {vtx : List CTransaction} (some_ : vtx ≠ []) :
    calcHash hash (vtx.map CTransaction.hash) (treeHeight vtx.length) 0 =
      (CBlock.buildMerkleTree hash vtx).1 := by
  have length : (vtx.map CTransaction.hash).length = vtx.length := List.length_map _
  have width := calcTreeWidth_treeHeight (List.length_pos_iff.mpr some_)
  have top := buildLevels_top hash vtx.length [] (vtx.map CTransaction.hash) false
    (treeHeight vtx.length)
    (fun below small => by
      rw [length_level, length]
      exact (treeHeight_spec vtx.length).2 below small)
    (by rw [length_level, length, width])
    ((findHeight_le _ _ _).trans (by omega))
  rw [List.length_nil, length, List.nil_append] at top
  rw [calcHash_eq hash _ _ _ (by rw [length, width]; exact Nat.one_pos), CBlock.buildMerkleTree,
    List.getD_eq_getElem?_getD, ← top]

/-- There are no more hashes than leaves, and no more than bits. -/
theorem length_traverseAndBuild (vTxid : List Uint256) (vMatch : List Bool) (height pos : Nat)
    (inside : pos * 2 ^ height < vTxid.length) :
    (traverseAndBuild hash vTxid vMatch height pos).2.length ≤ 2 ^ height ∧
      (traverseAndBuild hash vTxid vMatch height pos).2.length ≤
        vTxid.length - pos * 2 ^ height ∧
      (traverseAndBuild hash vTxid vMatch height pos).2.length ≤
        (traverseAndBuild hash vTxid vMatch height pos).1.length := by
  induction height generalizing pos with
  | zero =>
      rw [traverseAndBuild.eq_def]
      simp only [List.length_singleton]
      omega
  | succ height ih =>
      have positive : 0 < 2 ^ height := Nat.two_pow_pos height
      rw [traverseAndBuild.eq_def]
      dsimp only
      split
      · rw [Nat.pow_succ] at inside ⊢
        simp only [List.length_singleton]
        omega
      · have place : pos * 2 ^ (height + 1) = pos * 2 * 2 ^ height := by ring
        have place' : (pos * 2 + 1) * 2 ^ height = pos * 2 * 2 ^ height + 2 ^ height := by ring
        rw [place] at inside ⊢
        obtain ⟨small, left, bits⟩ := ih (pos * 2) inside
        rw [Nat.pow_succ]
        split
        · rename_i wide
          obtain ⟨small', right, bits'⟩ := ih (pos * 2 + 1) (lt_calcTreeWidth_iff.mp wide)
          rw [place'] at right
          have there := lt_calcTreeWidth_iff.mp wide
          rw [place'] at there
          simp only [List.length_append, List.length_cons]
          omega
        · simp only [List.append_nil, List.length_cons]
          omega

/-- **The round trip of a partial merkle tree**, through its bytes: the root of the block and the
matched ids in order. -/
theorem extractMatches_build (vtx : List CTransaction) (vMatch : List Bool) (some_ : vtx ≠ [])
    (small : vtx.length ≤ maxBlockSizeCurrent / 60) (sameLength : vMatch.length = vtx.length) :
    extractMatches hash (deserialize (serialize (build hash (vtx.map CTransaction.hash) vMatch))) =
      ((CBlock.buildMerkleTree hash vtx).1, matched ((vtx.map CTransaction.hash).zip vMatch)) := by
  have length : (vtx.map CTransaction.hash).length = vtx.length := List.length_map _
  have positive := List.length_pos_iff.mpr some_
  have inside : 0 * 2 ^ treeHeight vtx.length < (vtx.map CTransaction.hash).length := by
    rw [length, Nat.zero_mul]
    exact positive
  obtain ⟨-, hashes, bits⟩ := length_traverseAndBuild hash (vtx.map CTransaction.hash) vMatch
    (treeHeight vtx.length) 0 inside
  rw [Nat.zero_mul, Nat.sub_zero, length] at hashes
  have whole : below (vtx.map CTransaction.hash) vMatch (treeHeight vtx.length) 0 =
      (vtx.map CTransaction.hash).zip vMatch := by
    unfold below
    rw [Nat.zero_mul, List.drop_zero, List.take_of_length_le]
    rw [List.length_zip, length, sameLength, min_self]
    exact le_two_pow_treeHeight vtx.length
  have stored : build hash (vtx.map CTransaction.hash) vMatch =
      ⟨vtx.length, (traverseAndBuild hash (vtx.map CTransaction.hash) vMatch
        (treeHeight vtx.length) 0).1, (traverseAndBuild hash (vtx.map CTransaction.hash) vMatch
        (treeHeight vtx.length) 0).2, false⟩ := by
    unfold build
    rw [length]
  rw [stored, ← calcHash_treeHeight hash some_]
  have walk := traverseAndExtract_build hash (sameLength.trans length.symm)
    (deserialize (serialize ⟨vtx.length, (traverseAndBuild hash
      (vtx.map CTransaction.hash) vMatch (treeHeight vtx.length) 0).1, (traverseAndBuild hash
      (vtx.map CTransaction.hash) vMatch (treeHeight vtx.length) 0).2, false⟩)) length.symm
    (treeHeight vtx.length) 0 inside { fBad := false }
  generalize traverseAndBuild hash (vtx.map CTransaction.hash) vMatch (treeHeight vtx.length) 0 =
    taken at hashes bits walk ⊢
  have padded : (deserialize (serialize ⟨vtx.length, taken.1, taken.2, false⟩)).vBits =
      taken.1 ++ List.replicate (8 * ((taken.1.length + 7) / 8) - taken.1.length) false :=
    unpackBits_packBits taken.1
  have size : (deserialize (serialize ⟨vtx.length, taken.1, taken.2, false⟩)).vBits.length =
      8 * ((taken.1.length + 7) / 8) := by
    rw [padded, List.length_append, List.length_replicate]
    omega
  have walked := walk ⟨⟨_, padded.symm⟩, List.prefix_refl _⟩
  rw [whole] at walked
  unfold extractMatches
  rw [size]
  change (if vtx.length = 0 then _ else if vtx.length > maxBlockSizeCurrent / 60 then _
    else if taken.2.length > vtx.length then _ else if _ < taken.2.length then _ else _) = _
  rw [if_neg (by omega), if_neg (not_lt.mpr small), if_neg (by omega), if_neg (by omega)]
  dsimp only
  have start : traverseAndExtract hash
      (deserialize (serialize ⟨vtx.length, taken.1, taken.2, false⟩))
      (treeHeight (deserialize (serialize ⟨vtx.length, taken.1, taken.2, false⟩)).nTransactions) 0
      { fBad := (deserialize (serialize ⟨vtx.length, taken.1, taken.2, false⟩)).fBad } = _ := walked
  rw [start]
  change (if false = true then _
    else if (0 + taken.1.length + 7) / 8 ≠ (8 * ((taken.1.length + 7) / 8) + 7) / 8 then _
    else if 0 + taken.2.length ≠ taken.2.length then _ else _) = _
  rw [if_neg Bool.false_ne_true, if_neg (by omega), if_neg (by omega)]
  rfl

/-- The first and the last of three transactions are matched. -/
theorem extractMatches_build_three :
    (extractMatches (fun left right => 1000 * left + right) (deserialize (serialize
      (build (fun left right => 1000 * left + right) ((transactions [1, 2, 3]).map
        CTransaction.hash) [true, false, true])))).2 = [1, 3] := by
  rw [extractMatches_build (fun left right => 1000 * left + right) (transactions [1, 2, 3])
    [true, false, true] (List.cons_ne_nil _ _) (by decide) rfl]
  decide

end

end CPartialMerkleTree

end GiantCore
