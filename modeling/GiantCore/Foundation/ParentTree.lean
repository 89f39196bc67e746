import Mathlib.Data.List.Infix
import Mathlib.Data.List.TakeWhile
import Mathlib.Tactic.Common

/-! # Trees given by parents

A finite tree of which each node knows its parent and its level. The path of a node leads
from it to the root. Facts about a node and its parent become facts about a path by induction
on the level.
-/

namespace GiantCore.Foundation.ParentTree

variable {α : Type*}

/-- The nodes from one towards the root, for at most as many steps as are given. -/
def climb (parent : α → Option α) : Nat → α → List α
  | 0, node => [node]
  | steps + 1, node => node :: (parent node).elim [] (climb parent steps)

/-- The path of a node, as long as its level says. -/
def path (parent : α → Option α) (level : α → Nat) (node : α) : List α :=
  climb parent (level node) node

/-- Roots have level zero, and a node is one level above its parent. -/
structure Leveled (known : α → Prop) (parent : α → Option α) (level : α → Nat) : Prop where
  root : ∀ node, known node → parent node = none → level node = 0
  child : ∀ node up, known node → parent node = some up →
    known up ∧ level node = level up + 1

variable {known : α → Prop} {parent : α → Option α} {level : α → Nat}

theorem climb_root {steps : Nat} {node : α} (root : parent node = none) :
    climb parent steps node = [node] := by
  cases steps with
  | zero => rfl
  | succ steps => rw [climb, root, Option.elim_none]

theorem climb_succ {steps : Nat} {node up : α} (child : parent node = some up) :
    climb parent (steps + 1) node = node :: climb parent steps up := by
  rw [climb, child, Option.elim_some]

theorem self_mem_climb {steps : Nat} {node : α} : node ∈ climb parent steps node := by
  cases steps with
  | zero => exact List.mem_singleton_self node
  | succ => exact List.mem_cons_self

/-- Once a root is reached, further steps change nothing. -/
theorem climb_stable {steps more : Nat} {node : α}
    (reached : ∃ root ∈ climb parent steps node, parent root = none) (enough : steps ≤ more) :
    climb parent more node = climb parent steps node := by
  induction steps generalizing node more with
  | zero =>
      obtain ⟨root, member, top⟩ := reached
      rw [List.mem_singleton.mp member] at top
      rw [climb_root top, climb_root top]
  | succ steps ih =>
      cases above : parent node with
      | none => rw [climb_root above, climb_root above]
      | some up =>
          obtain ⟨more, rfl⟩ := Nat.exists_eq_succ_of_ne_zero (show more ≠ 0 by omega)
          rw [climb_succ above] at reached ⊢
          rw [climb_succ above, ih ?_ (Nat.le_of_succ_le_succ enough)]
          obtain ⟨root, member, top⟩ := reached
          rcases List.mem_cons.mp member with rfl | later
          · rw [above] at top
            cases top
          · exact ⟨root, later, top⟩

theorem path_root {node : α} (root : parent node = none) : path parent level node = [node] :=
  climb_root root

namespace Leveled

variable (tree : Leveled known parent level)

include tree

theorem path_child {node up : α} (isKnown : known node) (child : parent node = some up) :
    path parent level node = node :: path parent level up := by
  rw [path, (tree.child node up isKnown child).2, climb_succ child]
  rfl

/-- **Induction from the root.** -/
@[elab_as_elim]
theorem induct {motive : ∀ node, known node → Prop}
    (root : ∀ node isKnown, parent node = none → motive node isKnown)
    (child : ∀ node up isKnown, parent node = some up → ∀ upKnown, motive up upKnown →
      motive node isKnown) (node : α) (isKnown : known node) : motive node isKnown := by
  induction height : level node generalizing node with
  | zero =>
      cases above : parent node with
      | none => exact root node isKnown above
      | some up =>
          have higher := (tree.child node up isKnown above).2
          omega
  | succ steps ih =>
      cases above : parent node with
      | none => exact root node isKnown above
      | some up =>
          obtain ⟨upKnown, higher⟩ := tree.child node up isKnown above
          exact child node up isKnown above upKnown (ih up upKnown (by omega))

theorem self_mem_path {node : α} (isKnown : known node) : node ∈ path parent level node := by
  cases above : parent node with
  | none => rw [path_root above]; exact List.mem_singleton_self node
  | some up => rw [tree.path_child isKnown above]; exact List.mem_cons_self

/-- The root is at the end of a path. -/
theorem exists_root {node : α} (isKnown : known node) :
    ∃ root ∈ path parent level node, parent root = none := by
  induction node, isKnown using tree.induct with
  | root node isKnown root =>
      exact ⟨node, tree.self_mem_path isKnown, root⟩
  | child node up isKnown above _ ih =>
      obtain ⟨root, member, top⟩ := ih
      rw [tree.path_child isKnown above]
      exact ⟨root, List.mem_cons_of_mem _ member, top⟩

/-- With steps enough, the whole path is climbed. -/
theorem climb_eq_path {node : α} (isKnown : known node) {steps : Nat}
    (enough : level node ≤ steps) : climb parent steps node = path parent level node :=
  climb_stable (tree.exists_root isKnown) enough

theorem known_of_mem_path {node : α} (isKnown : known node) {other : α}
    (member : other ∈ path parent level node) : known other := by
  induction node, isKnown using tree.induct with
  | root node isKnown root =>
      rw [path_root root] at member
      rw [List.mem_singleton.mp member]
      exact isKnown
  | child node up isKnown above _ ih =>
      rw [tree.path_child isKnown above] at member
      rcases List.mem_cons.mp member with rfl | later
      · exact isKnown
      · exact ih later

/-- What lies on the path of a node has its own path at the end of it. -/
theorem path_suffix {node : α} (isKnown : known node) {other : α}
    (member : other ∈ path parent level node) :
    path parent level other <:+ path parent level node := by
  induction node, isKnown using tree.induct with
  | root node _ root =>
      rw [path_root root] at member
      rw [List.mem_singleton.mp member]
  | child node up isKnown above _ ih =>
      rw [tree.path_child isKnown above] at member
      rcases List.mem_cons.mp member with rfl | later
      · rw [tree.path_child isKnown above]
      · rw [tree.path_child isKnown above]
        exact (ih later).trans (List.suffix_cons _ _)

theorem mem_path_trans {low middle high : α} (isKnown : known high)
    (lower : low ∈ path parent level middle) (upper : middle ∈ path parent level high) :
    low ∈ path parent level high :=
  (tree.path_suffix isKnown upper).subset lower

theorem length_path {node : α} (isKnown : known node) :
    (path parent level node).length = level node + 1 := by
  induction node, isKnown using tree.induct with
  | root node isKnown root =>
      rw [path_root root, tree.root node isKnown root]
      rfl
  | child node up isKnown above _ ih =>
      rw [tree.path_child isKnown above, List.length_cons, ih, (tree.child node up isKnown above).2]

theorem level_le {node : α} (isKnown : known node) {other : α}
    (member : other ∈ path parent level node) : level other ≤ level node := by
  have shorter := (tree.path_suffix isKnown member).length_le
  rw [tree.length_path isKnown, tree.length_path (tree.known_of_mem_path isKnown member)] at shorter
  omega

/-- A node other than the last one lies on the path of the parent. -/
theorem mem_path_parent {node up other : α} (isKnown : known node) (child : parent node = some up)
    (member : other ∈ path parent level node) (below : level other < level node) :
    other ∈ path parent level up := by
  rw [tree.path_child isKnown child] at member
  rcases List.mem_cons.mp member with rfl | later
  · exact absurd below (lt_irrefl _)
  · exact later

/-- **One node a level.** -/
theorem eq_of_level_eq {node : α} (isKnown : known node) {first second : α}
    (one : first ∈ path parent level node) (two : second ∈ path parent level node)
    (same : level first = level second) : first = second := by
  induction node, isKnown using tree.induct with
  | root node _ root =>
      rw [path_root root] at one two
      rw [List.mem_singleton.mp one, List.mem_singleton.mp two]
  | child node up isKnown above upKnown ih =>
      have higher := (tree.child node up isKnown above).2
      rw [tree.path_child isKnown above] at one two
      rcases List.mem_cons.mp one with rfl | later <;>
        rcases List.mem_cons.mp two with rfl | laterToo
      · rfl
      · have lower := tree.level_le upKnown laterToo
        omega
      · have lower := tree.level_le upKnown later
        omega
      · exact ih later laterToo

/-- Of two nodes on a path, the lower one is on the path of the higher one. -/
theorem mem_path_of_level_le {node : α} (isKnown : known node) {low high : α}
    (one : low ∈ path parent level node) (two : high ∈ path parent level node)
    (below : level low ≤ level high) : low ∈ path parent level high := by
  induction node, isKnown using tree.induct with
  | root node isKnown root =>
      rw [path_root root] at one two
      rw [List.mem_singleton.mp one, List.mem_singleton.mp two]
      exact tree.self_mem_path isKnown
  | child node up isKnown above upKnown ih =>
      rcases eq_or_ne high node with rfl | different
      · exact one
      · have higher := (tree.child node up isKnown above).2
        rw [tree.path_child isKnown above] at two
        have inUp := (List.mem_cons.mp two).resolve_left different
        have limit := tree.level_le upKnown inUp
        exact ih (tree.mem_path_parent isKnown above one (by omega)) inUp

/-- The levels fall along a path. -/
theorem pairwise_path {node : α} (isKnown : known node) :
    (path parent level node).Pairwise fun high low => level low < level high := by
  induction node, isKnown using tree.induct with
  | root node _ root =>
      rw [path_root root]
      exact List.pairwise_singleton _ _
  | child node up isKnown above upKnown ih =>
      rw [tree.path_child isKnown above, List.pairwise_cons]
      refine ⟨fun other member => ?_, ih⟩
      have limit := tree.level_le upKnown member
      have higher := (tree.child node up isKnown above).2
      omega

/-- A path is no longer than the list of all nodes. -/
theorem length_path_le {nodes : List α} (all : ∀ node, known node → node ∈ nodes) {node : α}
    (isKnown : known node) : (path parent level node).length ≤ nodes.length := by
  have nodup : (path parent level node).Nodup :=
    (tree.pairwise_path isKnown).imp fun lower same => absurd lower (by simp [same])
  exact List.Nodup.length_le_of_subset nodup fun other member =>
    all other (tree.known_of_mem_path isKnown member)

/-- What comes before a node on a path has that node on its own path. -/
theorem mem_path_of_mem_takeWhile [DecidableEq α] {node low high : α} (isKnown : known node)
    (member : low ∈ path parent level node)
    (before : high ∈ (path parent level node).takeWhile (· ≠ low)) :
    low ∈ path parent level high := by
  have whole := List.takeWhile_append_dropWhile (p := (· ≠ low)) (l := path parent level node)
  have absent : low ∉ (path parent level node).takeWhile (· ≠ low) := by
    intro inside
    have differs := List.mem_takeWhile_imp inside
    simp at differs
  have ordered := tree.pairwise_path isKnown
  rw [← whole] at ordered member
  have after := (List.mem_append.mp member).resolve_left absent
  have lower := (List.pairwise_append.mp ordered).2.2 high before low after
  rw [whole] at member
  exact tree.mem_path_of_level_le isKnown member ((List.takeWhile_sublist _).subset before) lower.le

/-- A path is what lies above one of its nodes, followed by the path of that node. -/
theorem takeWhile_append_path {node low : α} (isKnown : known node)
    (member : low ∈ path parent level node) :
    (path parent level node).takeWhile (fun other => level other ≠ level low) ++
      path parent level low = path parent level node := by
  induction node, isKnown using tree.induct with
  | root node isKnown root =>
      rw [path_root root] at member
      rw [List.mem_singleton.mp member, path_root root, List.takeWhile_cons_of_neg (by simp)]
      rfl
  | child node up isKnown above upKnown ih =>
      rcases eq_or_ne low node with rfl | different
      · rw [tree.path_child isKnown above, List.takeWhile_cons_of_neg (by simp)]
        rfl
      · have higher := (tree.child node up isKnown above).2
        rw [tree.path_child isKnown above] at member ⊢
        have inUp := (List.mem_cons.mp member).resolve_left different
        have limit := tree.level_le upKnown inUp
        rw [List.takeWhile_cons_of_pos (by simpa using (show level node ≠ level low by omega)),
          List.cons_append, ih inUp]

/-- What lies above a node has a higher level. -/
theorem level_lt_of_mem_takeWhile {node low high : α} (isKnown : known node)
    (member : low ∈ path parent level node)
    (above : high ∈ (path parent level node).takeWhile (fun other => level other ≠ level low)) :
    level low < level high := by
  have ordered := tree.pairwise_path isKnown
  rw [← tree.takeWhile_append_path isKnown member, List.pairwise_append] at ordered
  exact ordered.2.2 high above low
    (tree.self_mem_path (tree.known_of_mem_path isKnown member))

/-- A node comes before each other node of its path. -/
theorem mem_takeWhile_or_eq [DecidableEq α] {node low : α} (isKnown : known node) :
    node ∈ (path parent level node).takeWhile (· ≠ low) ∨ node = low := by
  rcases eq_or_ne node low with same | different
  · exact Or.inr same
  · left
    cases above : parent node with
    | none =>
        rw [path_root above, List.takeWhile_cons_of_pos (by simpa using different)]
        exact List.mem_cons_self
    | some up =>
        rw [tree.path_child isKnown above, List.takeWhile_cons_of_pos (by simpa using different)]
        exact List.mem_cons_self

/-- What is left of a path when the first nodes are dropped is the path of the next one. -/
theorem mem_path_of_mem_dropWhile {node : α} (isKnown : known node) {drops : α → Bool} {low : α}
    (member : low ∈ (path parent level node).dropWhile drops) :
    ∃ high ∈ path parent level node, drops high = false ∧ low ∈ path parent level high := by
  have whole := List.takeWhile_append_dropWhile (p := drops) (l := path parent level node)
  cases rest : (path parent level node).dropWhile drops with
  | nil =>
      rw [rest] at member
      cases member
  | cons high after =>
      have stops : drops high = false := by
        have head := List.head_dropWhile_not drops (l := path parent level node) (by simp [rest])
        simpa [rest] using head
      rw [rest] at member whole
      have inPath : ∀ other ∈ high :: after, other ∈ path parent level node := by
        intro other inside
        rw [← whole]
        exact List.mem_append_right _ inside
      refine ⟨high, inPath high List.mem_cons_self, stops, ?_⟩
      refine tree.mem_path_of_level_le isKnown (inPath low member)
        (inPath high List.mem_cons_self) ?_
      rcases List.mem_cons.mp member with rfl | later
      · exact le_rfl
      · have ordered := tree.pairwise_path isKnown
        rw [← whole, List.pairwise_append, List.pairwise_cons] at ordered
        exact (ordered.2.1.1 low later).le

/-- The path from the root up has each node at the place of its level. -/
theorem getElem?_reverse_path {node : α} (isKnown : known node) {place : Nat} {other : α} :
    (path parent level node).reverse[place]? = some other ↔
      other ∈ path parent level node ∧ level other = place := by
  induction node, isKnown using tree.induct with
  | root node isKnown root =>
      have bottom := tree.root node isKnown root
      rw [path_root root, List.reverse_singleton]
      cases place with
      | zero =>
          rw [List.getElem?_cons_zero, Option.some.injEq, List.mem_singleton]
          constructor
          · rintro rfl
            exact ⟨rfl, bottom⟩
          · exact fun here => here.1.symm
      | succ above =>
          constructor
          · intro none
            cases none
          · rintro ⟨member, here⟩
            rw [List.mem_singleton.mp member] at here
            omega
  | child node up isKnown above upKnown ih =>
      have higher := (tree.child node up isKnown above).2
      have length : (path parent level up).reverse.length = level node := by
        rw [List.length_reverse, tree.length_path upKnown, higher]
      rw [tree.path_child isKnown above, List.reverse_cons, List.mem_cons]
      rcases lt_trichotomy place (level node) with lower | rfl | beyond
      · rw [List.getElem?_append_left (by omega), ih]
        constructor
        · exact fun here => ⟨Or.inr here.1, here.2⟩
        · rintro ⟨rfl | member, here⟩
          · omega
          · exact ⟨member, here⟩
      · rw [List.getElem?_append_right (by omega), length, Nat.sub_self, List.getElem?_cons_zero,
          Option.some.injEq]
        constructor
        · rintro rfl
          exact ⟨Or.inl rfl, rfl⟩
        · rintro ⟨rfl | member, here⟩
          · rfl
          · have limit := tree.level_le upKnown member
            omega
      · rw [List.getElem?_eq_none (by simp only [List.length_append, length, List.length_singleton]
                                      omega)]
        constructor
        · intro none
          cases none
        · rintro ⟨rfl | member, here⟩
          · omega
          · have limit := tree.level_le upKnown member
            omega

end Leveled

end GiantCore.Foundation.ParentTree
