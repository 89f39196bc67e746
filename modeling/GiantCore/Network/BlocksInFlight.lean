import GiantCore.Foundation.Run
import GiantCore.Primitives.Block
import Mathlib.Algebra.BigOperators.Group.Finset.Basic

/-! # Blocks in flight

The bookkeeping of `main.cpp` about the blocks that peers were asked for: a list for each peer, a
map from hashes to iterators into these lists, a counter for each peer, and one counter of the
blocks whose headers are validated.

An iterator is the address of a list element. A value `none` stands for an assertion that fails or
for a pointer or an iterator that points nowhere. Disconnecting a peer does not lower the last of
the counters.
-/

namespace GiantCore

open GiantCore.Foundation.Run

structure QueuedBlock where
  hash : Uint256
  pindex : Option Uint256
  nTime : Int
  nValidatedQueuedBefore : Int
  fValidatedHeaders : Bool
  deriving DecidableEq, Repr

/-- An element of a list of queued blocks. -/
structure QueueElement where
  address : Nat
  entry : QueuedBlock
  deriving DecidableEq, Repr

structure CNodeState where
  vBlocksInFlight : List QueueElement := []
  nBlocksInFlight : Int := 0
  nStallingSince : Int := 0
  fSyncStarted : Bool := false
  fPreferredDownload : Bool := false

structure Downloads where
  /-- The keys of `mapNodeState`. -/
  nodes : Finset Int := ∅
  mapNodeState : Int → CNodeState := fun _ => {}
  mapBlocksInFlight : Uint256 → Option (Int × Nat) := fun _ => none
  nQueuedValidatedHeaders : Int := 0
  nSyncStarted : Int := 0
  nPreferredDownload : Int := 0
  /-- Where the next list element will be. -/
  nextAddress : Nat := 0

/-- The calls that change the bookkeeping. -/
inductive DownloadCall where
  | initializeNode (nodeid : Int)
  | finalizeNode (nodeid : Int)
  | markBlockAsReceived (hash : Uint256)
  | markBlockAsInFlight (nodeid : Int) (hash : Uint256) (pindex : Option Uint256) (now : Int)

namespace Downloads

variable (state : Downloads)

/-- `mapNodeState.insert` keeps a peer that is there. -/
def initializeNode (nodeid : Int) : Downloads :=
  if nodeid ∈ state.nodes then state
  else { state with
    nodes := insert nodeid state.nodes
    mapNodeState := Function.update state.mapNodeState nodeid {} }

def finalizeNode (nodeid : Int) : Option Downloads :=
  if nodeid ∉ state.nodes then none
  else
    let node := state.mapNodeState nodeid
    some { state with
      nodes := state.nodes.erase nodeid
      mapBlocksInFlight := fun hash =>
        if node.vBlocksInFlight.any fun element => element.entry.hash = hash then none
        else state.mapBlocksInFlight hash
      nSyncStarted := state.nSyncStarted - node.fSyncStarted.toNat
      nPreferredDownload := state.nPreferredDownload - node.fPreferredDownload.toNat }

def markBlockAsReceived (hash : Uint256) : Option Downloads :=
  match state.mapBlocksInFlight hash with
  | none => some state
  | some (nodeid, it) =>
      if nodeid ∉ state.nodes then none
      else
        let node := state.mapNodeState nodeid
        match node.vBlocksInFlight.find? fun element => element.address = it with
        | none => none
        | some element => some { state with
            nQueuedValidatedHeaders :=
              state.nQueuedValidatedHeaders - element.entry.fValidatedHeaders.toNat
            mapNodeState := Function.update state.mapNodeState nodeid { node with
              vBlocksInFlight := node.vBlocksInFlight.filter fun element => element.address ≠ it
              nBlocksInFlight := node.nBlocksInFlight - 1
              nStallingSince := 0 }
            mapBlocksInFlight := Function.update state.mapBlocksInFlight hash none }

/-- The element is put at the end of the list of the peer. -/
def enqueue (nodeid : Int) (hash : Uint256) (pindex : Option Uint256) (now : Int) : Downloads :=
  let newentry : QueuedBlock :=
    { hash, pindex, nTime := now, nValidatedQueuedBefore := state.nQueuedValidatedHeaders
      fValidatedHeaders := pindex.isSome }
  let node := state.mapNodeState nodeid
  { state with
    nQueuedValidatedHeaders := state.nQueuedValidatedHeaders + newentry.fValidatedHeaders.toNat
    mapNodeState := Function.update state.mapNodeState nodeid { node with
      vBlocksInFlight := node.vBlocksInFlight ++ [⟨state.nextAddress, newentry⟩]
      nBlocksInFlight := node.nBlocksInFlight + 1 }
    mapBlocksInFlight :=
      Function.update state.mapBlocksInFlight hash (some (nodeid, state.nextAddress))
    nextAddress := state.nextAddress + 1 }

def markBlockAsInFlight (nodeid : Int) (hash : Uint256) (pindex : Option Uint256) (now : Int) :
    Option Downloads :=
  if nodeid ∉ state.nodes then none
  else
    -- make sure it's not listed somewhere already
    (state.markBlockAsReceived hash).map fun state => state.enqueue nodeid hash pindex now

/-- One call. Where it stops the program, the state stays as it was. -/
def step (state : Downloads) : DownloadCall → Downloads
  | .initializeNode nodeid => state.initializeNode nodeid
  | .finalizeNode nodeid => (state.finalizeNode nodeid).getD state
  | .markBlockAsReceived hash => (state.markBlockAsReceived hash).getD state
  | .markBlockAsInFlight nodeid hash pindex now =>
      (state.markBlockAsInFlight nodeid hash pindex now).getD state

/-! ## The lists and the map -/

/-- **The map has one entry for each queued block**, the counters of the peers are the lengths of
their lists, and no two elements of a list have the same address. -/
structure Consistent (state : Downloads) : Prop where
  mapped : ∀ hash nodeid it, state.mapBlocksInFlight hash = some (nodeid, it) ↔
    nodeid ∈ state.nodes ∧ ∃ element ∈ (state.mapNodeState nodeid).vBlocksInFlight,
      element.address = it ∧ element.entry.hash = hash
  counted : ∀ nodeid ∈ state.nodes, (state.mapNodeState nodeid).nBlocksInFlight =
    (state.mapNodeState nodeid).vBlocksInFlight.length
  addresses : ∀ nodeid ∈ state.nodes,
    ((state.mapNodeState nodeid).vBlocksInFlight.map QueueElement.address).Nodup
  fresh : ∀ nodeid ∈ state.nodes, ∀ element ∈ (state.mapNodeState nodeid).vBlocksInFlight,
    element.address < state.nextAddress

/-- The blocks of a peer that were queued with validated headers. -/
def validated (node : CNodeState) : Nat :=
  node.vBlocksInFlight.countP fun element => element.entry.fValidatedHeaders

/-- The blocks of all peers that were queued with validated headers. -/
def validatedTotal : Nat := ∑ nodeid ∈ state.nodes, validated (state.mapNodeState nodeid)

/-- **The bookkeeping is exact.** -/
structure Exact (state : Downloads) : Prop where
  consistent : Consistent state
  headers : state.nQueuedValidatedHeaders = state.validatedTotal

variable {state}

/-- An element is found by its address. -/
theorem Consistent.find?_eq_some (consistent : Consistent state) {nodeid : Int}
    (known : nodeid ∈ state.nodes) {element : QueueElement}
    (member : element ∈ (state.mapNodeState nodeid).vBlocksInFlight) :
    (state.mapNodeState nodeid).vBlocksInFlight.find?
      (fun other => other.address = element.address) = some element := by
  cases found : (state.mapNodeState nodeid).vBlocksInFlight.find?
      (fun other => other.address = element.address) with
  | none => exact absurd (List.find?_eq_none.mp found element member) (by simp)
  | some other =>
      have same : other.address = element.address := by simpa using List.find?_some found
      rw [List.inj_on_of_nodup_map (consistent.addresses nodeid known)
        (List.mem_of_find?_eq_some found) member same]

/-- The state when a queued block is taken out. -/
def dequeue (state : Downloads) (nodeid : Int) (element : QueueElement) : Downloads :=
  let node := state.mapNodeState nodeid
  { state with
    nQueuedValidatedHeaders :=
      state.nQueuedValidatedHeaders - element.entry.fValidatedHeaders.toNat
    mapNodeState := Function.update state.mapNodeState nodeid { node with
      vBlocksInFlight := node.vBlocksInFlight.filter fun other => other.address ≠ element.address
      nBlocksInFlight := node.nBlocksInFlight - 1
      nStallingSince := 0 }
    mapBlocksInFlight := Function.update state.mapBlocksInFlight element.entry.hash none }

/-- **`MarkBlockAsReceived`** takes the block out of the list that has it. -/
theorem Consistent.markBlockAsReceived_cases (consistent : Consistent state) (hash : Uint256) :
    (state.mapBlocksInFlight hash = none ∧ state.markBlockAsReceived hash = some state) ∨
      ∃ nodeid ∈ state.nodes, ∃ element ∈ (state.mapNodeState nodeid).vBlocksInFlight,
        element.entry.hash = hash ∧
          state.markBlockAsReceived hash = some (state.dequeue nodeid element) := by
  unfold markBlockAsReceived
  cases entry : state.mapBlocksInFlight hash with
  | none => exact Or.inl ⟨rfl, rfl⟩
  | some pair =>
      obtain ⟨nodeid, it⟩ := pair
      obtain ⟨known, element, member, rfl, rfl⟩ := (consistent.mapped hash nodeid it).mp entry
      refine Or.inr ⟨nodeid, known, element, member, rfl, ?_⟩
      dsimp only
      rw [if_neg (not_not.mpr known), consistent.find?_eq_some known member]
      rfl

/-- The block leaves the list of the peer. -/
theorem mapNodeState_dequeue_self {nodeid : Int} {element : QueueElement} :
    ((state.dequeue nodeid element).mapNodeState nodeid).vBlocksInFlight =
      (state.mapNodeState nodeid).vBlocksInFlight.filter
        fun other => other.address ≠ element.address := by
  unfold dequeue
  dsimp only
  rw [Function.update_self]

/-- The lists of the other peers stay. -/
theorem mapNodeState_dequeue_of_ne {nodeid other : Int} {element : QueueElement}
    (different : other ≠ nodeid) :
    (state.dequeue nodeid element).mapNodeState other = state.mapNodeState other := by
  unfold dequeue
  dsimp only
  rw [Function.update_of_ne different]

/-- The lists without the element. -/
theorem Consistent.mem_dequeue (consistent : Consistent state) {nodeid : Int}
    (known : nodeid ∈ state.nodes) {element : QueueElement}
    (member : element ∈ (state.mapNodeState nodeid).vBlocksInFlight) {other : Int}
    (otherKnown : other ∈ state.nodes) {found : QueueElement} :
    found ∈ ((state.dequeue nodeid element).mapNodeState other).vBlocksInFlight ↔
      found ∈ (state.mapNodeState other).vBlocksInFlight ∧
        found.entry.hash ≠ element.entry.hash := by
  have here := (consistent.mapped _ _ _).mpr ⟨known, element, member, rfl, rfl⟩
  constructor
  · intro inside
    have old : found ∈ (state.mapNodeState other).vBlocksInFlight := by
      rcases eq_or_ne other nodeid with rfl | different
      · rw [mapNodeState_dequeue_self] at inside
        exact List.mem_of_mem_filter inside
      · rw [mapNodeState_dequeue_of_ne different] at inside
        exact inside
    refine ⟨old, fun same => ?_⟩
    have there := (consistent.mapped _ _ _).mpr ⟨otherKnown, found, old, rfl, rfl⟩
    rw [same, here, Option.some.injEq, Prod.mk.injEq] at there
    obtain ⟨rfl, address⟩ := there
    rw [mapNodeState_dequeue_self, List.mem_filter, decide_eq_true_eq] at inside
    exact inside.2 address.symm
  · rintro ⟨old, hash⟩
    rcases eq_or_ne other nodeid with rfl | different
    · rw [mapNodeState_dequeue_self, List.mem_filter, decide_eq_true_eq]
      refine ⟨old, fun address => hash ?_⟩
      rw [List.inj_on_of_nodup_map (consistent.addresses other known) old member address]
    · rw [mapNodeState_dequeue_of_ne different]
      exact old

/-- Each list has one element less, or is as it was. -/
theorem Consistent.perm_dequeue (consistent : Consistent state) {nodeid : Int}
    (known : nodeid ∈ state.nodes) {element : QueueElement}
    (member : element ∈ (state.mapNodeState nodeid).vBlocksInFlight) :
    (state.mapNodeState nodeid).vBlocksInFlight.Perm
      (element :: ((state.dequeue nodeid element).mapNodeState nodeid).vBlocksInFlight) := by
  have distinct := consistent.addresses nodeid known
  rw [mapNodeState_dequeue_self]
  have erased : (state.mapNodeState nodeid).vBlocksInFlight.filter
      (fun other => other.address ≠ element.address) =
        (state.mapNodeState nodeid).vBlocksInFlight.erase element := by
    rw [(List.Nodup.of_map _ distinct).erase_eq_filter]
    refine List.filter_congr fun other inside => ?_
    rw [Bool.eq_iff_iff, decide_eq_true_eq, bne_iff_ne, not_iff_not]
    exact ⟨fun same => List.inj_on_of_nodup_map distinct inside member same, fun same => same ▸ rfl⟩
  rw [erased]
  exact List.perm_cons_erase member

/-- Taking a block out of a list keeps the counts. -/
theorem Consistent.dequeue (consistent : Consistent state) {nodeid : Int}
    (known : nodeid ∈ state.nodes) {element : QueueElement}
    (member : element ∈ (state.mapNodeState nodeid).vBlocksInFlight) :
    Consistent (state.dequeue nodeid element) := by
  refine ⟨fun hash other it => ?_, fun other otherKnown => ?_, fun other otherKnown => ?_,
    fun other otherKnown found inside => ?_⟩
  · change Function.update state.mapBlocksInFlight element.entry.hash none hash = some (other, it) ↔
      other ∈ state.nodes ∧ _
    rcases eq_or_ne hash element.entry.hash with rfl | different
    · rw [Function.update_self]
      refine ⟨fun none => (nomatch none), ?_⟩
      rintro ⟨otherKnown, found, inside, -, same⟩
      exact absurd same ((consistent.mem_dequeue known member otherKnown).mp inside).2
    · rw [Function.update_of_ne different, consistent.mapped]
      refine and_congr_right fun otherKnown => exists_congr fun found => ?_
      rw [consistent.mem_dequeue known member otherKnown, and_assoc]
      refine and_congr_right fun _ => ⟨fun both => ⟨both.2 ▸ different, both⟩, fun all => all.2⟩
  · rcases eq_or_ne other nodeid with rfl | different
    · have length := (consistent.perm_dequeue known member).length_eq
      have count := consistent.counted other known
      have lower : ((state.dequeue other element).mapNodeState other).nBlocksInFlight =
          (state.mapNodeState other).nBlocksInFlight - 1 := by
        unfold Downloads.dequeue
        dsimp only
        rw [Function.update_self]
      rw [List.length_cons] at length
      rw [lower, count, length]
      omega
    · rw [mapNodeState_dequeue_of_ne different]
      exact consistent.counted other otherKnown
  · rcases eq_or_ne other nodeid with rfl | different
    · rw [mapNodeState_dequeue_self]
      exact (consistent.addresses other known).sublist (List.filter_sublist.map _)
    · rw [mapNodeState_dequeue_of_ne different]
      exact consistent.addresses other otherKnown
  · exact consistent.fresh other otherKnown found
      ((consistent.mem_dequeue known member otherKnown).mp inside).1

/-- The total changes by what one peer has more or less. -/
theorem validatedTotal_of_update (after : Downloads) {nodeid : Int} (known : nodeid ∈ state.nodes)
    (nodes : after.nodes = state.nodes)
    (others : ∀ other, other ≠ nodeid → after.mapNodeState other = state.mapNodeState other) :
    after.validatedTotal + validated (state.mapNodeState nodeid) =
      state.validatedTotal + validated (after.mapNodeState nodeid) := by
  unfold validatedTotal
  rw [nodes, ← Finset.add_sum_erase _ _ known, ← Finset.add_sum_erase _ _ known]
  have rest : ∑ other ∈ state.nodes.erase nodeid, validated (after.mapNodeState other) =
      ∑ other ∈ state.nodes.erase nodeid, validated (state.mapNodeState other) :=
    Finset.sum_congr rfl fun other member => by rw [others other (Finset.ne_of_mem_erase member)]
  omega

/-- Taking a block out of a list keeps the bookkeeping. -/
theorem Exact.dequeue (bookkeeping : Exact state) {nodeid : Int} (known : nodeid ∈ state.nodes)
    {element : QueueElement}
    (member : element ∈ (state.mapNodeState nodeid).vBlocksInFlight) :
    Exact (state.dequeue nodeid element) := by
  have consistent := bookkeeping.consistent
  refine ⟨consistent.dequeue known member, ?_⟩
  have total := validatedTotal_of_update (state.dequeue nodeid element) known rfl
    fun other different => mapNodeState_dequeue_of_ne different
  have count : validated (state.mapNodeState nodeid) =
      validated ((state.dequeue nodeid element).mapNodeState nodeid) +
        element.entry.fValidatedHeaders.toNat := by
    have perm := (consistent.perm_dequeue known member).countP_eq
      fun element => element.entry.fValidatedHeaders
    rw [List.countP_cons] at perm
    rw [validated, perm, validated]
    cases element.entry.fValidatedHeaders <;> rfl
  have before := bookkeeping.headers
  change state.nQueuedValidatedHeaders - _ = _
  omega

/-- `MarkBlockAsReceived` keeps the bookkeeping. -/
theorem Exact.markBlockAsReceived (bookkeeping : Exact state) (hash : Uint256) :
    ∃ after, state.markBlockAsReceived hash = some after ∧ Exact after ∧
      after.nodes = state.nodes ∧ after.mapBlocksInFlight hash = none := by
  rcases bookkeeping.consistent.markBlockAsReceived_cases hash with ⟨none, result⟩ |
    ⟨nodeid, known, element, member, rfl, result⟩
  · exact ⟨state, result, bookkeeping, rfl, none⟩
  · exact ⟨_, result, bookkeeping.dequeue known member, rfl, Function.update_self _ _ _⟩

/-! ## Asking for a block -/

/-- The block comes last in the list of the peer. -/
theorem vBlocksInFlight_enqueue {nodeid other : Int} {hash : Uint256} {pindex : Option Uint256}
    {now : Int} : ((state.enqueue nodeid hash pindex now).mapNodeState other).vBlocksInFlight =
      if other = nodeid then (state.mapNodeState other).vBlocksInFlight ++
        [⟨state.nextAddress, hash, pindex, now, state.nQueuedValidatedHeaders, pindex.isSome⟩]
      else (state.mapNodeState other).vBlocksInFlight := by
  unfold enqueue
  dsimp only
  rcases eq_or_ne other nodeid with rfl | different
  · rw [Function.update_self, if_pos rfl]
  · rw [Function.update_of_ne different, if_neg different]

/-- A block that nobody has asked for keeps the counts. -/
theorem Consistent.enqueue (consistent : Consistent state) {nodeid : Int}
    (known : nodeid ∈ state.nodes) {hash : Uint256}
    (unlisted : state.mapBlocksInFlight hash = none) (pindex : Option Uint256) (now : Int) :
    Consistent (state.enqueue nodeid hash pindex now) := by
  have notQueued : ∀ other ∈ state.nodes, ∀ element ∈ (state.mapNodeState other).vBlocksInFlight,
      element.entry.hash ≠ hash := by
    intro other otherKnown element member same
    have entry := (consistent.mapped _ _ _).mpr ⟨otherKnown, element, member, rfl, rfl⟩
    rw [same, unlisted] at entry
    cases entry
  refine ⟨fun key other it => ?_, fun other otherKnown => ?_, fun other otherKnown => ?_,
    fun other otherKnown element inside => ?_⟩
  · change Function.update state.mapBlocksInFlight hash (some (nodeid, state.nextAddress)) key =
      some (other, it) ↔ other ∈ state.nodes ∧ _
    rw [vBlocksInFlight_enqueue]
    rcases eq_or_ne key hash with rfl | different
    · rw [Function.update_self, Option.some.injEq, Prod.mk.injEq]
      constructor
      · rintro ⟨rfl, rfl⟩
        rw [if_pos rfl]
        exact ⟨known, _, List.mem_append_right _ (List.mem_singleton_self _), rfl, rfl⟩
      · rintro ⟨otherKnown, element, inside, rfl, same⟩
        split at inside
        · rename_i here
          rcases List.mem_append.mp inside with old | new
          · exact absurd same (notQueued other otherKnown element old)
          · rw [List.mem_singleton.mp new]
            exact ⟨here.symm, rfl⟩
        · exact absurd same (notQueued other otherKnown element inside)
    · rw [Function.update_of_ne different, consistent.mapped]
      refine and_congr_right fun _ => exists_congr fun element => and_congr_left fun both => ?_
      split
      · rw [List.mem_append, List.mem_singleton]
        refine ⟨Or.inl, fun either => either.resolve_right ?_⟩
        rintro rfl
        exact different both.2.symm
      · exact Iff.rfl
  · have count := consistent.counted other otherKnown
    rw [vBlocksInFlight_enqueue]
    unfold Downloads.enqueue
    dsimp only
    rcases eq_or_ne other nodeid with rfl | different
    · rw [Function.update_self, if_pos rfl, List.length_append, List.length_singleton, count]
      rfl
    · rw [Function.update_of_ne different, if_neg different, count]
  · have distinct := consistent.addresses other otherKnown
    rw [vBlocksInFlight_enqueue]
    split
    · rw [List.map_append, List.map_singleton, List.nodup_append_comm]
      refine List.nodup_cons.mpr ⟨fun member => ?_, distinct⟩
      obtain ⟨element, inside, same⟩ := List.mem_map.mp member
      exact absurd same (consistent.fresh other otherKnown element inside).ne
    · exact distinct
  · rw [vBlocksInFlight_enqueue] at inside
    change element.address < state.nextAddress + 1
    split at inside
    · rcases List.mem_append.mp inside with old | new
      · exact Nat.lt_succ_of_lt (consistent.fresh other otherKnown element old)
      · rw [List.mem_singleton.mp new]
        exact Nat.lt_succ_self _
    · exact Nat.lt_succ_of_lt (consistent.fresh other otherKnown element inside)

/-- A block that nobody has asked for keeps the bookkeeping. -/
theorem Exact.enqueue (bookkeeping : Exact state) {nodeid : Int} (known : nodeid ∈ state.nodes)
    {hash : Uint256} (unlisted : state.mapBlocksInFlight hash = none) (pindex : Option Uint256)
    (now : Int) : Exact (state.enqueue nodeid hash pindex now) := by
  refine ⟨bookkeeping.consistent.enqueue known unlisted pindex now, ?_⟩
  have total := validatedTotal_of_update (state.enqueue nodeid hash pindex now) known rfl
    fun other different => Function.update_of_ne different _ _
  have count : validated ((state.enqueue nodeid hash pindex now).mapNodeState nodeid) =
      validated (state.mapNodeState nodeid) + pindex.isSome.toNat := by
    rw [validated, vBlocksInFlight_enqueue, if_pos rfl, List.countP_append, List.countP_singleton,
      validated]
    cases pindex <;> rfl
  have before := bookkeeping.headers
  change state.nQueuedValidatedHeaders + (pindex.isSome.toNat : Int) = _
  omega

/-- `MarkBlockAsInFlight` keeps the bookkeeping. -/
theorem Exact.markBlockAsInFlight (bookkeeping : Exact state) {nodeid : Int} {hash : Uint256}
    {pindex : Option Uint256} {now : Int} :
    Exact ((state.markBlockAsInFlight nodeid hash pindex now).getD state) := by
  unfold Downloads.markBlockAsInFlight
  split
  · exact bookkeeping
  · rename_i known
    obtain ⟨after, result, received, nodes, unlisted⟩ := bookkeeping.markBlockAsReceived hash
    rw [result]
    exact received.enqueue (nodes ▸ not_not.mp known) unlisted pindex now

/-! ## Peers come and go -/

/-- A new peer keeps the bookkeeping. -/
theorem Exact.initializeNode (bookkeeping : Exact state) (nodeid : Int) :
    Exact (state.initializeNode nodeid) := by
  unfold Downloads.initializeNode
  split
  · exact bookkeeping
  · rename_i unknown
    have consistent := bookkeeping.consistent
    have old : ∀ {other}, other ∈ state.nodes →
        Function.update state.mapNodeState nodeid {} other = state.mapNodeState other := by
      intro other known
      refine Function.update_of_ne ?_ _ _
      rintro rfl
      exact unknown known
    have new : Function.update state.mapNodeState nodeid {} nodeid = {} :=
      Function.update_self _ _ _
    refine ⟨⟨fun hash other it => ?_, fun other member => ?_, fun other member => ?_,
      fun other member element inside => ?_⟩, ?_⟩
    · dsimp only
      rw [consistent.mapped, Finset.mem_insert]
      constructor
      · rintro ⟨known, queued⟩
        rw [old known]
        exact ⟨Or.inr known, queued⟩
      · rintro ⟨rfl | known, element, inside, both⟩
        · rw [new] at inside
          cases inside
        · rw [old known] at inside
          exact ⟨known, element, inside, both⟩
    · dsimp only at member ⊢
      rcases Finset.mem_insert.mp member with rfl | known
      · rw [new]
        rfl
      · rw [old known]
        exact consistent.counted other known
    · dsimp only at member ⊢
      rcases Finset.mem_insert.mp member with rfl | known
      · rw [new]
        exact List.nodup_nil
      · rw [old known]
        exact consistent.addresses other known
    · dsimp only at member inside ⊢
      rcases Finset.mem_insert.mp member with rfl | known
      · rw [new] at inside
        cases inside
      · rw [old known] at inside
        exact consistent.fresh other known element inside
    · unfold validatedTotal
      dsimp only
      rw [Finset.sum_insert unknown, new, bookkeeping.headers]
      have rest : ∑ other ∈ state.nodes,
          validated (Function.update state.mapNodeState nodeid {} other) =
          state.validatedTotal := Finset.sum_congr rfl fun other known => by rw [old known]
      rw [rest]
      exact congrArg Nat.cast (Nat.zero_add _).symm

/-- A peer that leaves takes its blocks out of the counts. -/
theorem Consistent.finalizeNode (consistent : Consistent state) {nodeid : Int} {after : Downloads}
    (known : nodeid ∈ state.nodes) (result : state.finalizeNode nodeid = some after) :
    Consistent after := by
  rw [Downloads.finalizeNode, if_neg (not_not.mpr known)] at result
  cases result
  refine ⟨fun hash other it => ?_, fun other member => ?_, fun other member => ?_,
    fun other member => ?_⟩
  · dsimp only
    rw [Finset.mem_erase]
    split
    · rename_i queued
      obtain ⟨own, ownMember, same⟩ := List.any_eq_true.mp queued
      have here := (consistent.mapped _ _ _).mpr ⟨known, own, ownMember, rfl, rfl⟩
      rw [of_decide_eq_true same] at here
      refine ⟨fun none => (nomatch none), ?_⟩
      rintro ⟨⟨different, otherKnown⟩, element, inside, -, rfl⟩
      have there := (consistent.mapped _ _ _).mpr ⟨otherKnown, element, inside, rfl, rfl⟩
      rw [here, Option.some.injEq, Prod.mk.injEq] at there
      exact absurd there.1.symm different
    · rename_i elsewhere
      rw [consistent.mapped, and_assoc]
      constructor
      · rintro ⟨otherKnown, element, inside, both⟩
        refine ⟨?_, otherKnown, element, inside, both⟩
        rintro rfl
        exact elsewhere (List.any_eq_true.mpr ⟨element, inside, decide_eq_true both.2⟩)
      · exact fun all => all.2
  · exact consistent.counted other (Finset.mem_of_mem_erase member)
  · exact consistent.addresses other (Finset.mem_of_mem_erase member)
  · exact consistent.fresh other (Finset.mem_of_mem_erase member)

/-- **Disconnecting a peer** keeps the counter right if and only if none of its blocks was queued
with validated headers. -/
theorem Exact.finalizeNode_iff (bookkeeping : Exact state) {nodeid : Int} {after : Downloads}
    (known : nodeid ∈ state.nodes) (result : state.finalizeNode nodeid = some after) :
    Exact after ↔ ∀ element ∈ (state.mapNodeState nodeid).vBlocksInFlight,
      element.entry.fValidatedHeaders = false := by
  have consistent := bookkeeping.consistent.finalizeNode known result
  have before := bookkeeping.headers
  rw [Downloads.finalizeNode, if_neg (not_not.mpr known)] at result
  cases result
  have total : validated (state.mapNodeState nodeid) +
      ∑ other ∈ state.nodes.erase nodeid, validated (state.mapNodeState other) =
        state.validatedTotal :=
    Finset.add_sum_erase state.nodes (fun other => validated (state.mapNodeState other)) known
  have none : validated (state.mapNodeState nodeid) = 0 ↔
      ∀ element ∈ (state.mapNodeState nodeid).vBlocksInFlight,
        element.entry.fValidatedHeaders = false := by
    rw [validated, List.countP_eq_zero]
    simp only [Bool.not_eq_true]
  rw [← none]
  constructor
  · intro exactly
    have headers := exactly.headers
    unfold validatedTotal at headers
    dsimp only at headers
    omega
  · intro zero
    refine ⟨consistent, ?_⟩
    unfold validatedTotal
    dsimp only
    omega

/-! ## Whole runs -/

/-- A peer is disconnected only when no block with validated headers is queued at it. -/
def Settled (state : Downloads) : DownloadCall → Prop
  | .finalizeNode nodeid => nodeid ∈ state.nodes →
      ∀ element ∈ (state.mapNodeState nodeid).vBlocksInFlight,
        element.entry.fValidatedHeaders = false
  | _ => True

/-- The condition for one call. -/
theorem Exact.step_iff (bookkeeping : Exact state) (call : DownloadCall) :
    Exact (state.step call) ↔ Settled state call := by
  cases call with
  | initializeNode nodeid => exact iff_true_intro (bookkeeping.initializeNode nodeid)
  | finalizeNode nodeid =>
      dsimp only [step, Settled]
      by_cases known : nodeid ∈ state.nodes
      · have result :
            state.finalizeNode nodeid = some ((state.finalizeNode nodeid).getD state) := by
          unfold finalizeNode
          rw [if_neg (not_not.mpr known)]
          rfl
        rw [bookkeeping.finalizeNode_iff known result]
        exact ⟨fun none _ => none, fun all => all known⟩
      · have stops : state.finalizeNode nodeid = none := if_pos known
        rw [stops]
        exact ⟨fun _ here => absurd here known, fun _ => bookkeeping⟩
  | markBlockAsReceived hash =>
      obtain ⟨after, result, received, -⟩ := bookkeeping.markBlockAsReceived hash
      refine iff_true_intro ?_
      rw [step, result]
      exact received
  | markBlockAsInFlight nodeid hash pindex now =>
      exact iff_true_intro bookkeeping.markBlockAsInFlight

/-- In the beginning there is nothing to count. -/
theorem exact_initial : Exact {} := by
  refine ⟨⟨fun hash nodeid it => ?_, fun nodeid none => ?_, fun nodeid none => ?_,
    fun nodeid none => ?_⟩, rfl⟩
  · exact ⟨fun none => (nomatch none), fun both => absurd both.1 (Finset.notMem_empty _)⟩
  all_goals exact absurd none (Finset.notMem_empty _)

/-- **The bookkeeping is exact in every state of a run** if and only if no peer is disconnected
while a block with validated headers is queued at it. -/
theorem exact_iff_settled (calls : List DownloadCall) :
    (∀ state ∈ states step {} calls, Exact state) ↔ AllSteps step Settled {} calls := by
  have keeps : ∀ state call, True → True → Exact state →
      (Exact (step state call) ↔ Settled state call) :=
    fun state call _ _ bookkeeping => bookkeeping.step_iff call
  exact forall_states_iff (fun _ => True) Exact (fun _ _ _ => trivial) keeps trivial exact_initial
    (fun _ _ => trivial)

/-- A peer is asked for a block whose header is known and disconnects: one block is counted, and no
block is queued. -/
theorem not_exact_disconnected :
    ¬ ∀ state ∈ states step {} [.initializeNode 1, .markBlockAsInFlight 1 7 (some 7) 0,
      .finalizeNode 1], Exact state := by
  intro every
  have headers := (every _ (foldl_mem_states _ _)).headers
  have counted : ([.initializeNode 1, .markBlockAsInFlight 1 7 (some 7) 0,
      .finalizeNode 1].foldl step {}).nQueuedValidatedHeaders = 1 := by decide
  have queued : ([.initializeNode 1, .markBlockAsInFlight 1 7 (some 7) 0,
      .finalizeNode 1].foldl step {}).validatedTotal = 0 := by decide
  rw [counted, queued] at headers
  cases headers

end Downloads

end GiantCore
