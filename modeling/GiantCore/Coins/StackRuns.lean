import GiantCore.Coins.CacheRefinement

/-! # Caches that are used below the top

A parent cache can be read and modified while a child cache over it is alive; only
flushing it then is ruled out. `BatchWrite` asserts that an entry that the parent lacks
is fresh. Lookups keep that true, although they add entries to the parents. A
modification through a parent can break it: pruning a fresh entry drops the entry, and
a child that has read it before holds a copy that is not fresh. In runs without such a
modification no flush fails the assertion (`flushesFresh_of_reached`).
-/

namespace GiantCore

open GiantCore.Foundation.WriteBack

/-- What is done with a stack, through the cache at a depth. Only the top cache is
flushed or destroyed. -/
inductive StackOp where
  | accessCoins (depth : Nat) (txid : Uint256)
  | getCoins (depth : Nat) (txid : Uint256)
  | haveCoins (depth : Nat) (txid : Uint256)
  | modifyCoins (depth : Nat) (txid : Uint256) (change : CCoins → CCoins)
  | setBestBlock (depth : Nat) (hashBlockIn : Uint256)
  | flush
  /-- A new cache on top. -/
  | child
  /-- Destroy the top cache and what it holds; the last one is replaced. -/
  | discard

namespace CoinsStack

variable {β : Type} (view : CCoinsView β) (stack : CoinsStack β)

/-- An operation on the cache at a depth, over the views below it. -/
def within (depth : Nat) (op : CoinsStack β → CoinsStack β) : CoinsStack β :=
  { stack with
    caches := stack.caches.modifyTailIdx depth fun caches => (op { stack with caches }).caches }

/-- `SetBestBlock`. `GetBestBlock` remembers the best block of the views below in the
same field. -/
def setBestBlock (hashBlockIn : Uint256) : CoinsStack β :=
  { stack with
    caches := stack.caches.modifyHead fun cache => { cache with hashBlock := hashBlockIn } }

def discard : CoinsStack β :=
  { stack with caches := if stack.caches.tail.isEmpty then [{}] else stack.caches.tail }

def stackStep : StackOp → Option (CoinsStack β)
  | .accessCoins depth txid =>
      some (stack.within depth fun below => (below.accessCoins view txid).1)
  | .getCoins depth txid => some (stack.within depth fun below => (below.getCoins view txid).1)
  | .haveCoins depth txid => some (stack.within depth fun below => (below.haveCoins view txid).1)
  | .modifyCoins depth txid change =>
      some (stack.within depth fun below => below.modifyCoins view txid change)
  | .setBestBlock depth hashBlockIn =>
      some (stack.within depth fun below => below.setBestBlock hashBlockIn)
  | .flush => stack.flush view
  | .child => some stack.child
  | .discard => some stack.discard

/-- The stacks that are reached from a single new cache by steps that meet a condition. -/
inductive Reached (ok : CoinsStack β → StackOp → Prop) : CoinsStack β → Prop
  | start (base : β) : Reached ok (start base)
  | step {stack next : CoinsStack β} {op : StackOp} : Reached ok stack → ok stack op →
      stack.stackStep view op = some next → Reached ok next

/-- **What the assertion of `BatchWrite` says**: a dirty entry that is not pruned and that
the parent lacks is fresh. -/
def FlushesFresh : Prop :=
  ∀ child parent lower, stack.caches = child :: parent :: lower →
    ∀ (txid : Uint256) (entry : CCoinsCacheEntry), child.cacheCoins[txid]? = some entry →
      entry.dirty = true → entry.value.isPruned = false →
      parent.cacheCoins[txid]? = none → entry.fresh = true

/-- A modification through a parent does not prune a fresh entry of which the child over
it holds a copy that is not fresh. -/
def Spares : StackOp → Prop
  | .modifyCoins (depth + 1) txid change =>
      ∀ child parent copy entry, stack.caches[depth]? = some child →
        stack.caches[depth + 1]? = some parent → child.cacheCoins[txid]? = some copy →
        copy.fresh = false → parent.cacheCoins[txid]? = some entry → entry.fresh = true →
        (change entry.value).cleanup.isPruned = false
  | _ => True

/-- Every cache has an entry below each of its entries that is not fresh. -/
def AllAnchored : Prop := stack.caches ≠ [] ∧ ∀ txid, Anchored (column stack.caches txid)

variable {view stack}

/-! ## Operations at a depth -/

theorem modifyTailIdx_ne_nil {caches : List CCoinsViewCache} (nonempty : caches ≠ [])
    {op : List CCoinsViewCache → List CCoinsViewCache}
    (keeps : ∀ lower, lower ≠ [] → op lower ≠ []) (depth : Nat) :
    caches.modifyTailIdx depth op ≠ [] := by
  obtain ⟨cache, lower, rfl⟩ := List.exists_cons_of_ne_nil nonempty
  cases depth with
  | zero => exact keeps _ nonempty
  | succ depth =>
      rw [List.modifyTailIdx_succ_cons]
      exact List.cons_ne_nil _ _

/-- An operation at a depth keeps the caches anchored if it does so for the caches from
there on, and if the cache right above still rests on what it finds. -/
theorem anchored_modifyTailIdx {op : List CCoinsViewCache → List CCoinsViewCache} {txid : Uint256}
    (keeps : ∀ lower, Anchored (column lower txid) → Anchored (column (op lower) txid))
    {depth : Nat} {caches : List CCoinsViewCache}
    (carries : ∀ upper child lower, caches = upper ++ child :: lower → depth = upper.length + 1 →
      (∀ next ∈ (column lower txid).head?, Rests child.cacheCoins[txid]? next) →
        ∀ next ∈ (column (op lower) txid).head?, Rests child.cacheCoins[txid]? next)
    (anchored : Anchored (column caches txid)) :
    Anchored (column (caches.modifyTailIdx depth op) txid) := by
  induction depth generalizing caches with
  | zero => exact keeps caches anchored
  | succ depth ih =>
      cases caches with
      | nil => exact anchored
      | cons child lower =>
          obtain ⟨rests, below⟩ := List.isChain_cons.mp anchored
          have inner : Anchored (column (lower.modifyTailIdx depth op) txid) := by
            apply ih _ below
            intro upper next rest split deep
            exact carries (child :: upper) next rest (by rw [split]; rfl) (by rw [deep]; rfl)
          rw [List.modifyTailIdx_succ_cons]
          refine List.isChain_cons.mpr ⟨?_, inner⟩
          cases depth with
          | zero => exact carries [] child lower rfl rfl rests
          | succ depth =>
              cases lower with
              | nil => exact rests
              | cons parent rest => exact rests

/-- A lookup at a depth. -/
theorem AllAnchored.lookup (anchored : stack.AllAnchored) (depth : Nat) (txid : Uint256) :
    (stack.within depth fun below => (below.accessCoins view txid).1).AllAnchored := by
  have found (key : Uint256) (lower : List CCoinsViewCache) :=
    column_fetchCoins view stack.base txid key lower
  refine ⟨modifyTailIdx_ne_nil anchored.1 ?_ depth, ?_⟩
  · intro lower nonempty emptied
    have same := found txid lower
    obtain ⟨cache, rest, rfl⟩ := List.exists_cons_of_ne_nil nonempty
    simp only [CoinsStack.accessCoins] at emptied
    rw [emptied, if_pos rfl, column, List.map_nil, column, List.map_cons] at same
    cases top : cache.cacheCoins[txid]? with
    | none =>
        rw [top, Foundation.WriteBack.fetch] at same
        cases same
    | some entry =>
        rw [top, Foundation.WriteBack.fetch] at same
        cases same
  · intro key
    refine anchored_modifyTailIdx ?_ ?_ (anchored.2 key)
    · intro lower below
      simp only [CoinsStack.accessCoins, found]
      split
      · rename_i same
        rw [← same]
        exact below.fetch
      · exact below
    · intro upper child lower _ _ rests
      simp only [CoinsStack.accessCoins, found]
      split
      · rename_i same
        rw [← same]
        exact Rests.fetch rests
      · exact rests

/-- A modification at a depth, if it spares the entries that the cache above rests on. -/
theorem AllAnchored.modify (anchored : stack.AllAnchored) {depth : Nat} {txid : Uint256}
    {change : CCoins → CCoins} (spares : stack.Spares (.modifyCoins depth txid change)) :
    (stack.within depth fun below => below.modifyCoins view txid change).AllAnchored := by
  have entries (key : Uint256) (cache : CCoinsViewCache) (lower : List CCoinsViewCache) :=
    column_modifyCoins view stack.base cache lower txid key change
  refine ⟨modifyTailIdx_ne_nil anchored.1 ?_ depth, ?_⟩
  · intro lower nonempty
    obtain ⟨cache, rest, rfl⟩ := List.exists_cons_of_ne_nil nonempty
    exact List.cons_ne_nil _ _
  · intro key
    refine anchored_modifyTailIdx ?_ ?_ (anchored.2 key)
    · intro lower below
      cases lower with
      | nil => exact below
      | cons cache rest =>
          simp only [entries]
          split
          · rename_i same
            subst same
            exact Anchored.write below _
          · exact below
    · intro upper child lower shape deep rests
      cases lower with
      | nil => exact rests
      | cons cache rest =>
          simp only [entries]
          split
          · rename_i same
            subst same
            rintro next head
            cases head
            refine Rests.write (rests _ rfl) ?_
            intro copy entry held stale under fresh
            subst deep
            have here := spares child cache copy entry
            simp only [shape, List.getElem?_append_right, le_refl, Nat.sub_self, Nat.le_add_right,
              Nat.add_sub_cancel_left, List.getElem?_cons_zero, List.getElem?_cons_succ,
              forall_const] at here
            rw [under, opened]
            exact here held stale under fresh
          · exact rests

theorem AllAnchored.setBestBlock (anchored : stack.AllAnchored) (depth : Nat)
    (hashBlockIn : Uint256) :
    (stack.within depth fun below => below.setBestBlock hashBlockIn).AllAnchored := by
  have same (lower : List CCoinsViewCache) (txid : Uint256) :
      column (lower.modifyHead fun cache => { cache with hashBlock := hashBlockIn }) txid =
        column lower txid := by
    cases lower with
    | nil => rfl
    | cons cache rest => rfl
  refine ⟨modifyTailIdx_ne_nil anchored.1 ?_ depth, ?_⟩
  · intro lower nonempty
    obtain ⟨cache, rest, rfl⟩ := List.exists_cons_of_ne_nil nonempty
    exact List.cons_ne_nil _ _
  · intro txid
    refine anchored_modifyTailIdx ?_ ?_ (anchored.2 txid)
    · intro lower below
      simp only [CoinsStack.setBestBlock, same]
      exact below
    · intro upper child lower _ _ rests
      simp only [CoinsStack.setBestBlock, same]
      exact rests

/-! ## Flushing -/

/-- The assertion holds for every entry of anchored caches. -/
theorem AllAnchored.flushesFresh (anchored : stack.AllAnchored) : stack.FlushesFresh := by
  intro child parent lower shape txid entry found _ _ absent
  have here := anchored.2 txid
  rw [shape, column, List.map_cons, List.map_cons] at here
  by_contra stale
  exact (List.isChain_cons.mp here).1 _ rfl entry found (Bool.not_eq_true _ ▸ stale) absent

/-- A flush of the top cache, with no assertion that fails. -/
theorem AllAnchored.flush (anchored : stack.AllAnchored) :
    ∃ flushed, stack.flush view = some flushed ∧ flushed.AllAnchored := by
  obtain ⟨nonempty, columns⟩ := anchored
  obtain ⟨base, caches⟩ := stack
  match caches, nonempty, columns with
  | [cache], _, _ => exact ⟨_, rfl, List.cons_ne_nil _ _, fun txid => List.isChain_singleton _⟩
  | cache :: parent :: lower, _, columns =>
      have mergeable : ∀ (txid : Uint256) (entry : CCoinsCacheEntry),
          cache.cacheCoins[txid]? = some entry →
            ∃ merged, merge CCoins.isPruned entry parent.cacheCoins[txid]? = some merged := by
        intro txid entry found
        have here := columns txid
        rw [column, List.map_cons, List.map_cons, found] at here
        obtain ⟨merged, done, -⟩ := here.merge
        exact ⟨merged, done⟩
      obtain ⟨written, defined, merged⟩ :=
        CCoinsViewCache.batchWrite_eq cache.hashBlock mergeable
      refine ⟨⟨base, { cache with cacheCoins := ∅ } :: written :: lower⟩, ?_,
        List.cons_ne_nil _ _, ?_⟩
      · simp only [CoinsStack.flush, defined]
        rfl
      · intro txid
        have after := merged txid
        have here := columns txid
        rw [column, List.map_cons, List.map_cons] at here
        refine List.isChain_cons.mpr ⟨?_, ?_⟩
        · rintro next -
          change Rests (∅ : CCoinsMap)[txid]? next
          rw [Std.ExtTreeMap.getElem?_empty]
          exact rests_none next
        · cases found : cache.cacheCoins[txid]? with
          | none =>
              rw [found] at after
              rw [List.map_cons, after]
              exact (List.isChain_cons.mp here).2
          | some entry =>
              rw [found] at after here
              obtain ⟨result, done, next⟩ := here.merge
              rw [after] at done
              cases done
              exact next

/-- **Every step keeps the caches anchored**, and none fails. -/
theorem AllAnchored.step (anchored : stack.AllAnchored) {op : StackOp} (spares : stack.Spares op) :
    ∃ next, stack.stackStep view op = some next ∧ next.AllAnchored := by
  cases op with
  | accessCoins depth txid => exact ⟨_, rfl, anchored.lookup depth txid⟩
  | getCoins depth txid => exact ⟨_, rfl, anchored.lookup depth txid⟩
  | haveCoins depth txid => exact ⟨_, rfl, anchored.lookup depth txid⟩
  | modifyCoins depth txid change => exact ⟨_, rfl, anchored.modify spares⟩
  | setBestBlock depth hashBlockIn => exact ⟨_, rfl, anchored.setBestBlock depth hashBlockIn⟩
  | flush => exact anchored.flush
  | child =>
      refine ⟨_, rfl, List.cons_ne_nil _ _, ?_⟩
      intro txid
      refine List.isChain_cons.mpr ⟨?_, anchored.2 txid⟩
      rintro next -
      exact rests_none next
  | discard =>
      obtain ⟨base, caches⟩ := stack
      obtain ⟨cache, lower, shape⟩ := List.exists_cons_of_ne_nil anchored.1
      have columns := anchored.2
      simp only at shape columns
      subst shape
      refine ⟨_, rfl, ?_⟩
      cases lower with
      | nil => exact ⟨List.cons_ne_nil _ _, fun txid => List.isChain_singleton _⟩
      | cons parent rest =>
          exact ⟨List.cons_ne_nil _ _, fun txid => (List.isChain_cons.mp (columns txid)).2⟩

theorem anchored_of_reached (reached : Reached view Spares stack) : stack.AllAnchored := by
  induction reached with
  | start base => exact ⟨List.cons_ne_nil _ _, fun txid => List.isChain_singleton _⟩
  | step earlier spares stepped ih =>
      obtain ⟨next, done, anchored⟩ := @AllAnchored.step _ view _ ih _ spares
      rw [stepped] at done
      cases done
      exact anchored

/-- **No flush fails the assertion**, in any run in which modifications through a parent
spare the fresh entries that the child over it has read, and no other step fails
either. -/
theorem flushesFresh_of_reached (reached : Reached view Spares stack) :
    stack.FlushesFresh ∧ ∀ op, stack.Spares op → (stack.stackStep view op).isSome = true := by
  have anchored := anchored_of_reached reached
  refine ⟨anchored.flushesFresh, ?_⟩
  intro op spares
  obtain ⟨next, done, -⟩ := @AllAnchored.step _ view _ anchored _ spares
  rw [done]
  rfl

/-- Coins are made in a cache and read through a child; the parent writes them again, and
the child spends them. -/
theorem flushesFresh_spentInChild : ∃ stack : CoinsStack CCoinsViewDB,
    (stack.FlushesFresh ∧ ∀ op, stack.Spares op →
      (stack.stackStep coinsViewDB op).isSome = true) ∧
    stack.caches.length = 2 := by
  have made := @Reached.step _ coinsViewDB Spares _ _ (.modifyCoins 0 7 fun _ => coinsAtFive)
    (Reached.start {}) trivial rfl
  have opened := @Reached.step _ _ _ _ _ .child made trivial rfl
  have read := @Reached.step _ _ _ _ _ (.accessCoins 0 7) opened trivial rfl
  have kept := @Reached.step _ _ _ _ _ (.modifyCoins 1 7 fun _ => coinsAtFive) read (by
    intro _ _ _ _ _ _ _ _ _ _
    change coinsAtFive.cleanup.isPruned = false
    decide) rfl
  have spent := @Reached.step _ _ _ _ _ (.modifyCoins 0 7 fun _ => CCoins.clear) kept trivial rfl
  exact ⟨_, flushesFresh_of_reached spent, rfl⟩

/-- Coins are made in a cache and read through a child; the parent spends them, which drops
its entry, and the child keeps them. -/
def spentUnderCopy : List StackOp :=
  [.modifyCoins 0 7 fun _ => coinsAtFive, .child, .accessCoins 0 7,
    .modifyCoins 1 7 fun _ => CCoins.clear, .modifyCoins 0 7 fun _ => coinsAtFive]

theorem reached_of_foldlM {start final : CoinsStack β} {ops : List StackOp}
    (reached : Reached view (fun _ _ => True) start)
    (ran : ops.foldlM (stackStep view) start = some final) :
    Reached view (fun _ _ => True) final := by
  induction ops generalizing start with
  | nil =>
      cases ran
      exact reached
  | cons op rest ih =>
      rw [List.foldlM_cons] at ran
      obtain ⟨next, stepped, later⟩ := Option.bind_eq_some_iff.mp ran
      exact ih (reached.step trivial stepped) later

/-- **A flush can fail the assertion** when the parent has been modified. -/
theorem not_flushesFresh_of_reached :
    ¬ ∀ (β : Type) (view : CCoinsView β) (stack : CoinsStack β),
      Reached view (fun _ _ => True) stack → stack.FlushesFresh := by
  intro all
  have flags : (spentUnderCopy.foldlM (stackStep coinsViewDB) (start {})).map
      (fun stack => stack.caches.map fun cache => cache.cacheCoins[(7 : Uint256)]?.map
        fun entry => (entry.dirty, entry.value.isPruned, entry.fresh)) =
      some [some (true, false, false), none] := by
    decide
  obtain ⟨⟨base, caches⟩, ran, entries⟩ := Option.map_eq_some_iff.mp flags
  have fresh := all _ _ _ (reached_of_foldlM (Reached.start ({} : CCoinsViewDB)) ran)
  match caches, entries, fresh with
  | [child, parent], entries, fresh =>
      simp only [List.map_cons, List.map_nil, List.cons.injEq, Option.map_eq_some_iff,
        Option.map_eq_none_iff, Prod.mk.injEq, and_true] at entries
      obtain ⟨⟨entry, found, dirty, stays, stale⟩, absent⟩ := entries
      rw [fresh child parent [] rfl 7 entry found dirty stays absent] at stale
      cases stale

end CoinsStack

end GiantCore
