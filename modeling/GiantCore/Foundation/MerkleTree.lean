import Mathlib.Data.Set.Function
import Mathlib.Tactic.Common

/-! # Trees of hashes

The levels of a tree over a list of leaves. Two neighbours of a level have one parent. The last
node of a level of odd length stands on both sides.

Two lists of leaves may have one root because of this padding. `leaves_eq` says that they are equal
when no level of either list ends with the same node twice, the pairs do not collide, and leaves
are no parents.
-/

namespace GiantCore.Foundation.MerkleTree

variable {η : Type*} (pair : η → η → η)

/-- The neighbours of a level. -/
def pairs : List η → List (η × η)
  | [] => []
  | [last] => [(last, last)]
  | left :: right :: rest => (left, right) :: pairs rest

def next (level : List η) : List η := (pairs level).map fun both => pair both.1 both.2

/-- The level has even length, and its last two nodes are equal. -/
def endsTwice [DecidableEq η] : List η → Bool
  | [] => false
  | [_] => false
  | left :: right :: rest => (rest.isEmpty && decide (left = right)) || endsTwice rest

/-- The pairs that are hashed on the way to the root, for at most so many levels. -/
def hashedPairs : Nat → List η → List (η × η)
  | 0, _ => []
  | rounds + 1, level =>
      if level.length ≤ 1 then [] else pairs level ++ hashedPairs rounds (next pair level)

@[simp] theorem length_next (level : List η) :
    (next pair level).length = (level.length + 1) / 2 := by
  unfold next
  rw [List.length_map]
  induction level using pairs.induct with
  | case1 => simp [pairs]
  | case2 last => simp [pairs]
  | case3 left right rest ih =>
      rw [pairs, List.length_cons, ih, List.length_cons, List.length_cons]
      omega

theorem length_next_lt {level : List η} (long : 1 < level.length) :
    (next pair level).length < level.length := by
  rw [length_next]
  omega

theorem next_ne_nil {level : List η} (some_ : level ≠ []) : next pair level ≠ [] := by
  have positive := List.length_pos_iff.mpr some_
  refine List.length_pos_iff.mp ?_
  rw [length_next]
  omega

/-- The neighbours at a place of a level. -/
theorem getElem?_pairs (level : List η) (pos : Nat) :
    (pairs level)[pos]? =
      level[2 * pos]?.map fun left => (left, level[2 * pos + 1]?.getD left) := by
  induction level using pairs.induct generalizing pos with
  | case1 => rfl
  | case2 last =>
      cases pos with
      | zero => rfl
      | succ pos => rfl
  | case3 left right rest ih =>
      cases pos with
      | zero => rfl
      | succ pos =>
          rw [pairs, List.getElem?_cons_succ, ih, Nat.mul_succ, List.getElem?_cons_succ,
            List.getElem?_cons_succ]
          rfl

/-- The node at a place of the next level. -/
theorem getElem?_next (level : List η) (pos : Nat) :
    (next pair level)[pos]? =
      level[2 * pos]?.map fun left => pair left (level[2 * pos + 1]?.getD left) := by
  unfold next
  rw [List.getElem?_map, getElem?_pairs, Option.map_map]
  rfl

/-- The pairs of every level below the root are hashed. -/
theorem mem_hashedPairs {rounds height : Nat} (enough : height < rounds) {level : List η}
    (long : ∀ below, below ≤ height → 1 < ((next pair)^[below] level).length) {both : η × η}
    (member : both ∈ pairs ((next pair)^[height] level)) :
    both ∈ hashedPairs pair rounds level := by
  induction rounds generalizing height level with
  | zero => exact absurd enough (Nat.not_lt_zero _)
  | succ rounds ih =>
      have first := long 0 (Nat.zero_le _)
      rw [Function.iterate_zero, id_eq] at first
      rw [hashedPairs, if_neg (Nat.not_le.mpr first)]
      cases height with
      | zero => exact List.mem_append_left _ member
      | succ height =>
          refine List.mem_append_right _ (ih (Nat.lt_of_succ_lt_succ enough) ?_ member)
          exact fun below small => long (below + 1) (Nat.succ_le_succ small)

theorem map_fst_pairs_sublist (level : List η) : ((pairs level).map Prod.fst).Sublist level := by
  induction level using pairs.induct with
  | case1 => exact List.Sublist.refl _
  | case2 last => exact List.Sublist.refl _
  | case3 left right rest ih =>
      rw [pairs, List.map_cons]
      exact (ih.cons right).cons_cons left

section Binding

variable [DecidableEq η]

/-- Without a repeated end, a level is known from its pairs. -/
theorem eq_of_pairs_eq {first second : List η} (one : endsTwice first = false)
    (two : endsTwice second = false) (same : pairs first = pairs second) : first = second := by
  induction first using pairs.induct generalizing second with
  | case1 =>
      match second with
      | [] => rfl
      | [_] => cases same
      | _ :: _ :: _ => cases same
  | case2 last =>
      match second with
      | [] => cases same
      | [_] =>
          cases same
          rfl
      | left :: right :: rest =>
          rw [pairs, pairs, List.cons.injEq, Prod.mk.injEq] at same
          obtain ⟨⟨rfl, rfl⟩, ended⟩ := same
          match rest with
          | [] => simp [endsTwice] at two
          | [_] => cases ended
          | _ :: _ :: _ => cases ended
  | case3 left right rest ih =>
      match second with
      | [] => cases same
      | [last] =>
          rw [pairs, pairs, List.cons.injEq, Prod.mk.injEq] at same
          obtain ⟨⟨rfl, rfl⟩, ended⟩ := same
          match rest with
          | [] => simp [endsTwice] at one
          | [_] => cases ended
          | _ :: _ :: _ => cases ended
      | other :: another :: others =>
          rw [pairs, pairs, List.cons.injEq, Prod.mk.injEq] at same
          obtain ⟨⟨rfl, rfl⟩, later⟩ := same
          rw [endsTwice, Bool.or_eq_false_iff] at one two
          rw [ih one.2 two.2 later]

/-- A level above which the tree goes on, whose pairs lie in a set and whose end is not repeated. -/
structure Plain (hashed : Set (η × η)) (level : List η) : Prop where
  long : 1 < level.length
  plain : endsTwice level = false
  inside : ∀ both ∈ pairs level, both ∈ hashed

/-- The tree of a level has this root, and all levels below the root are plain. -/
inductive Rooted (hashed : Set (η × η)) : List η → η → Prop
  | root (top : η) : Rooted hashed [top] top
  | level {level : List η} {top : η} (plain : Plain hashed level)
      (above : Rooted hashed (next pair level) top) : Rooted hashed level top

/-- One level is above another. -/
inductive Above (hashed : Set (η × η)) : List η → List η → Prop
  | refl (level : List η) : Above hashed level level
  | up {low high : List η} (plain : Plain hashed low) (later : Above hashed (next pair low) high) :
      Above hashed low high

variable {pair} {hashed : Set (η × η)}

theorem Rooted.above {level : List η} {top : η} (rooted : Rooted pair hashed level top) :
    Above pair hashed level [top] := by
  induction rooted with
  | root top => exact .refl [top]
  | level plain _ ih => exact .up plain ih

variable (free : Set.InjOn (fun both : η × η => pair both.1 both.2) hashed)

omit [DecidableEq η] in
include free in
/-- Pairs without collisions are known from their parents. -/
theorem eq_of_map_eq {first second : List (η × η)} (one : ∀ both ∈ first, both ∈ hashed)
    (two : ∀ both ∈ second, both ∈ hashed)
    (same : first.map (fun both => pair both.1 both.2) =
      second.map fun both => pair both.1 both.2) : first = second := by
  induction first generalizing second with
  | nil => exact (List.map_eq_nil_iff.mp same.symm).symm
  | cons both rest ih =>
      cases second with
      | nil => cases same
      | cons other others =>
          rw [List.forall_mem_cons] at one two
          rw [List.map_cons, List.map_cons, List.cons.injEq] at same
          rw [free one.1 two.1 same.1, ih one.2 two.2 same.2]

include free in
theorem eq_of_next_eq {first second : List η} (one : Plain hashed first)
    (two : Plain hashed second) (same : next pair first = next pair second) : first = second :=
  eq_of_pairs_eq one.plain two.plain (eq_of_map_eq free one.inside two.inside same)

include free in
/-- A level above the parents of a level whose parents are those of another one is above that. -/
theorem Above.of_parents {low high : List η} (plainHigh : Plain hashed high)
    (plainLow : Plain hashed low) (above : Above pair hashed (next pair low) (next pair high)) :
    Above pair hashed low high := by
  generalize parents : next pair low = start at above
  generalize ends : next pair high = finish at above
  induction above generalizing low with
  | refl level =>
      rw [eq_of_next_eq free plainLow plainHigh (parents.trans ends.symm)]
      exact .refl high
  | up plain _ ih =>
      subst parents
      exact .up plainLow (ih plain rfl ends)

include free in
/-- Of two trees with one root, one has the leaves of the other as a level. -/
theorem Rooted.above_or {first second : List η} {top : η}
    (one : Rooted pair hashed first top) (two : Rooted pair hashed second top) :
    Above pair hashed first second ∨ Above pair hashed second first := by
  induction one generalizing second with
  | root top => exact Or.inr two.above
  | level plain above ih =>
      cases two with
      | root => exact Or.inl (Rooted.level plain above).above
      | level plain' above' =>
          rcases ih above' with low | high
          · exact Or.inl (Above.of_parents free plain' plain low)
          · exact Or.inr (Above.of_parents free plain plain' high)

/-- A level above the leaves consists of parents. -/
theorem Above.parents {low high : List η} (above : Above pair hashed low high)
    (parents : ∀ node ∈ low, ∃ both ∈ hashed, node = pair both.1 both.2) :
    ∀ node ∈ high, ∃ both ∈ hashed, node = pair both.1 both.2 := by
  induction above with
  | refl level => exact parents
  | up plain _ ih =>
      refine ih fun node member => ?_
      obtain ⟨both, inside, rfl⟩ := List.mem_map.mp member
      exact ⟨both, plain.inside both inside, rfl⟩

/-- Leaves that are no parents are above no other level. -/
theorem Above.eq {low high : List η} (above : Above pair hashed low high) (some_ : high ≠ [])
    (leaves : ∀ leaf ∈ high, ∀ both ∈ hashed, leaf ≠ pair both.1 both.2) : low = high := by
  cases above with
  | refl => rfl
  | up plain later =>
      obtain ⟨node, member⟩ := List.exists_mem_of_ne_nil high some_
      have parents : ∀ node ∈ next pair low, ∃ both ∈ hashed, node = pair both.1 both.2 := by
        intro node inside
        obtain ⟨both, here, rfl⟩ := List.mem_map.mp inside
        exact ⟨both, plain.inside both here, rfl⟩
      obtain ⟨both, inside, same⟩ := later.parents parents node member
      exact absurd same (leaves node member both inside)

include free in
/-- **A root binds its leaves**, if no level ends with the same node twice. -/
theorem leaves_eq {first second : List η} {top : η} (one : Rooted pair hashed first top)
    (two : Rooted pair hashed second top) (someFirst : first ≠ []) (someSecond : second ≠ [])
    (leavesFirst : ∀ leaf ∈ first, ∀ both ∈ hashed, leaf ≠ pair both.1 both.2)
    (leavesSecond : ∀ leaf ∈ second, ∀ both ∈ hashed, leaf ≠ pair both.1 both.2) :
    first = second := by
  rcases one.above_or free two with low | high
  · exact low.eq someSecond leavesSecond
  · exact (high.eq someFirst leavesFirst).symm

end Binding

end GiantCore.Foundation.MerkleTree
