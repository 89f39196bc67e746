import GiantCore.Coins.Cache

/-! # The coin caches refine a plain map

`CoinsStack.Refines` says that a stack of caches represents a map from
transactions to coins, up to the difference between pruned coins and none. Every
operation keeps it and fails no assertion, so that a run of operations reads what
the map holds, and flushing every layer leaves the map in the base.

Pruned coins are equal for the caches: a fresh entry that becomes pruned is
dropped and comes back with empty metadata, while another keeps its metadata. A
modification that builds on the metadata of pruned coins therefore has no meaning
of its own, and the refinement is about modifications that treat all pruned coins
alike.
-/

namespace GiantCore

open GiantCore.Foundation.WriteBack

namespace CoinsStack

variable {β : Type} (view : CCoinsView β)

/-- **A stack represents a plain map.** -/
def Refines (stack : CoinsStack β) (coins : CoinsMap) : Prop :=
  stack.caches ≠ [] ∧
    ∀ txid, Tracks (view.getCoins stack.base txid) (column stack.caches txid) (coins txid)

variable {view} {stack : CoinsStack β} {coins : CoinsMap}

/-- What a cache returns is what the map holds, up to pruned coins. -/
theorem Refines.accessCoins (refines : stack.Refines view coins) (txid : Uint256) :
    SameCoins (stack.accessCoins view txid).2 (some (coins txid)) := by
  have tracks := refines.2 txid
  simp only [CoinsStack.accessCoins, snd_fetchCoins]
  exact tracks.same

theorem Refines.haveCoins (refines : stack.Refines view coins) (txid : Uint256) :
    (stack.haveCoins view txid).2 = !(coins txid).isPruned := by
  have tracks := refines.2 txid
  simp only [CoinsStack.haveCoins, CoinsStack.accessCoins, snd_fetchCoins]
  cases found : readThrough (view.getCoins stack.base txid) (column stack.caches txid) with
  | none =>
      have pruned : (coins txid).isPruned = true := by
        have blank := tracks.same.blank_iff
        rw [found] at blank
        exact blank.mp trivial
      rw [pruned]
      rfl
  | some value =>
      have clean := tracks.clean_read view.clean found
      have blank := tracks.same.blank_iff
      rw [found] at blank
      have same : value.isPruned = (coins txid).isPruned := Bool.eq_iff_iff.mpr blank
      rw [← same, clean.isPruned_eq]
      rfl

theorem Refines.fetch (refines : stack.Refines view coins) (txid : Uint256) :
    (stack.accessCoins view txid).1.Refines view coins := by
  obtain ⟨nonempty, tracks⟩ := refines
  constructor
  · obtain ⟨cache, lower, top⟩ := List.exists_cons_of_ne_nil nonempty
    simp only [CoinsStack.accessCoins, top, fetchCoins]
    split
    · exact List.cons_ne_nil _ _
    · split
      · exact List.cons_ne_nil _ _
      · exact List.cons_ne_nil _ _
  · intro key
    simp only [CoinsStack.accessCoins, column_fetchCoins]
    split
    · rename_i same
      rw [same]
      exact (tracks txid).fetch view.clean
    · exact tracks key

/-- A modification that treats pruned coins alike. -/
def TreatsPrunedAlike (change : CCoins → CCoins) : Prop :=
  ∀ first second : CCoins, first.isPruned = true → second.isPruned = true →
    SameCoins (some (change first).cleanup) (some (change second).cleanup)

theorem Refines.modifyCoins {change : CCoins → CCoins} (refines : stack.Refines view coins)
    (alike : TreatsPrunedAlike change) (txid : Uint256) :
    (stack.modifyCoins view txid change).Refines view
      (coins.modifyCoins txid (change (coins txid))) := by
  obtain ⟨nonempty, tracks⟩ := refines
  obtain ⟨cache, lower, top⟩ := List.exists_cons_of_ne_nil nonempty
  obtain ⟨base, caches⟩ := stack
  simp only at top
  subst top
  refine ⟨List.cons_ne_nil _ _, ?_⟩
  intro key
  have entries := column_modifyCoins view base cache lower txid key change
  simp only at entries
  rw [entries]
  by_cases same : key = txid
  · subst same
    rw [if_pos rfl, CoinsMap.modifyCoins, Function.update_self]
    apply (tracks key).modify view.clean
    intro other before
    rcases before with ⟨left, right⟩ | equal
    · exact alike _ _ left right
    · rw [Option.some.inj equal]
  · rw [if_neg same, CoinsMap.modifyCoins, Function.update_of_ne same]
    exact tracks key

theorem Refines.child (refines : stack.Refines view coins) : stack.child.Refines view coins := by
  refine ⟨List.cons_ne_nil _ _, ?_⟩
  intro txid
  have tracks := refines.2 txid
  have top : column stack.child.caches txid = none :: column stack.caches txid := rfl
  rw [top]
  refine ⟨tracks.promise, ?_, tracks.same⟩
  intro entry member
  rcases List.mem_cons.mp member with absent | member
  · cases absent
  · exact tracks.clean member

/-- `BatchWrite` from the top cache: no assertion fails, and the cache below holds
what the top one held. -/
theorem batchWrite_tracks {base : β} {cache parent : CCoinsViewCache}
    {lower : List CCoinsViewCache}
    (tracks : ∀ txid, Tracks (view.getCoins base txid) (column (cache :: parent :: lower) txid)
      (coins txid)) (hashBlock : Uint256) :
    ∃ written, parent.batchWrite cache.cacheCoins hashBlock = some written ∧
      ∀ txid, Tracks (view.getCoins base txid) (column (written :: lower) txid) (coins txid) := by
  have mergeable : ∀ (txid : Uint256) (entry : CCoinsCacheEntry),
      cache.cacheCoins[txid]? = some entry →
        ∃ merged, merge CCoins.isPruned entry parent.cacheCoins[txid]? = some merged := by
    intro txid entry found
    have here := tracks txid
    simp only [column, List.map_cons, found] at here
    obtain ⟨merged, done, -⟩ := here.merge
    exact ⟨merged, done⟩
  obtain ⟨written, defined, merged⟩ := CCoinsViewCache.batchWrite_eq hashBlock mergeable
  refine ⟨written, defined, ?_⟩
  intro txid
  have here := tracks txid
  have after := merged txid
  simp only [column, List.map_cons] at here ⊢
  cases found : cache.cacheCoins[txid]? with
  | none =>
      rw [found] at here after
      rw [after]
      exact ⟨here.promise, fun member => here.clean (List.mem_cons_of_mem _ member), here.same⟩
  | some entry =>
      rw [found] at here after
      obtain ⟨result, done, next⟩ := here.merge
      rw [after] at done
      cases done
      exact ⟨next.promise, fun member => next.clean (List.mem_cons_of_mem _ member), next.same⟩

/-- `BatchWrite` of the last cache into the base. -/
theorem batchWrite_base {base : β} {cache : CCoinsViewCache}
    (tracks : ∀ txid, Tracks (view.getCoins base txid) (column [cache] txid) (coins txid))
    (hashBlock txid : Uint256) :
    SameCoins (view.getCoins (view.batchWrite base cache.cacheCoins hashBlock) txid)
      (some (coins txid)) := by
  have known : ∀ {key : Uint256} {entry : CCoinsCacheEntry},
      cache.cacheCoins[key]? = some entry → entry.value.Clean ∧
        (entry.dirty = false → view.getCoins base key = some entry.value) := by
    intro key entry found
    have here := tracks key
    simp only [column, List.map_cons, List.map_nil, found] at here
    exact ⟨here.clean List.mem_cons_self, here.promise.1⟩
  apply (view.getCoins_batchWrite hashBlock txid known).trans
  have here := (tracks txid).same
  simp only [column, List.map_cons, List.map_nil] at here
  cases found : cache.cacheCoins[txid]? with
  | none =>
      rw [found] at here
      exact here
  | some entry =>
      rw [found] at here
      exact here

theorem Refines.flush (refines : stack.Refines view coins) :
    ∃ flushed, stack.flush view = some flushed ∧ flushed.Refines view coins ∧
      ∀ cache lower, flushed.caches = cache :: lower → cache.cacheCoins = ∅ := by
  obtain ⟨nonempty, tracks⟩ := refines
  obtain ⟨base, caches⟩ := stack
  match caches, nonempty, tracks with
  | [cache], _, tracks =>
      refine ⟨_, rfl, ⟨List.cons_ne_nil _ _, ?_⟩, ?_⟩
      · intro txid
        have empty : column [{ cache with cacheCoins := ∅ }] txid = [none] := by
          simp [column]
        rw [empty]
        refine ⟨trivial, ?_, batchWrite_base tracks cache.hashBlock txid⟩
        intro entry member
        cases List.mem_singleton.mp member
      · intro top lower equal
        cases equal
        rfl
  | cache :: parent :: lower, _, tracks =>
      obtain ⟨written, defined, after⟩ := batchWrite_tracks tracks cache.hashBlock
      refine ⟨⟨base, { cache with cacheCoins := ∅ } :: written :: lower⟩, ?_,
        ⟨List.cons_ne_nil _ _, ?_⟩, ?_⟩
      · simp only [CoinsStack.flush, defined]
        rfl
      · intro txid
        have here := after txid
        have empty : column ({ cache with cacheCoins := ∅ } :: written :: lower) txid =
            none :: column (written :: lower) txid := by
          simp [column]
        rw [empty]
        refine ⟨here.promise, ?_, here.same⟩
        intro entry member
        rcases List.mem_cons.mp member with absent | member
        · cases absent
        · exact here.clean member
      · intro top rest equal
        cases equal
        rfl

theorem Refines.close (refines : stack.Refines view coins) :
    ∃ closed, stack.close view = some closed ∧ closed.Refines view coins := by
  obtain ⟨flushed, done, ⟨nonempty, tracks⟩, emptied⟩ := refines.flush
  refine ⟨_, by rw [CoinsStack.close, done]; rfl, ?_⟩
  obtain ⟨cache, lower, shape⟩ := List.exists_cons_of_ne_nil nonempty
  have blank := emptied cache lower shape
  -- an empty cache on top says nothing, so the entries below track the same coins
  have below : ∀ txid, Tracks (view.getCoins flushed.base txid) (column lower txid)
      (coins txid) := by
    intro txid
    have here := tracks txid
    rw [shape, column, List.map_cons, blank, Std.ExtTreeMap.getElem?_empty, ← column] at here
    exact ⟨here.promise, fun member => here.clean (List.mem_cons_of_mem _ member), here.same⟩
  simp only [shape, List.tail_cons]
  cases lower with
  | nil =>
      refine ⟨List.cons_ne_nil _ _, ?_⟩
      intro txid
      have here := below txid
      refine ⟨trivial, ?_, here.same⟩
      intro entry member
      cases List.mem_singleton.mp member
  | cons parent rest => exact ⟨List.cons_ne_nil _ _, below⟩

/-- No operation fails an assertion, and each keeps the refinement. -/
theorem Refines.step (refines : stack.Refines view coins) (op : CacheOp)
    (alike : ∀ txid change, op = .modifyCoins txid change → TreatsPrunedAlike change) :
    ∃ next, stack.step view op = some next ∧ next.Refines view (op.apply coins) := by
  cases op with
  | accessCoins txid => exact ⟨_, rfl, refines.fetch txid⟩
  | getCoins txid => exact ⟨_, rfl, refines.fetch txid⟩
  | haveCoins txid => exact ⟨_, rfl, refines.fetch txid⟩
  | modifyCoins txid change =>
      exact ⟨_, rfl, refines.modifyCoins (alike txid change rfl) txid⟩
  | flush =>
      obtain ⟨flushed, done, kept, -⟩ := refines.flush
      exact ⟨flushed, done, kept⟩
  | child => exact ⟨_, rfl, refines.child⟩
  | close => exact refines.close

theorem Refines.run {ops : List CacheOp} (refines : stack.Refines view coins)
    (alike : ∀ txid change, .modifyCoins txid change ∈ ops → TreatsPrunedAlike change) :
    ∃ final, ops.foldlM (CoinsStack.step view) stack = some final ∧
      final.Refines view (ops.foldl CacheOp.apply coins) := by
  induction ops generalizing stack coins with
  | nil => exact ⟨stack, rfl, refines⟩
  | cons op rest ih =>
      obtain ⟨next, done, kept⟩ := refines.step op (by
        intro txid change same
        exact alike txid change (same ▸ List.mem_cons_self))
      obtain ⟨final, ran, represented⟩ := ih kept (by
        intro txid change member
        exact alike txid change (List.mem_cons_of_mem _ member))
      refine ⟨final, ?_, represented⟩
      rw [List.foldlM_cons, done]
      exact ran

/-- Flushing every layer leaves the map in the base. -/
theorem flushAll_eq {base : β} {cache : CCoinsViewCache} {lower : List CCoinsViewCache}
    (tracks : ∀ txid, Tracks (view.getCoins base txid) (column (cache :: lower) txid)
      (coins txid)) :
    ∃ flushed, flushAll view base cache lower = some flushed ∧
      ∀ txid, SameCoins (view.getCoins flushed txid) (some (coins txid)) := by
  induction lower generalizing cache with
  | nil => exact ⟨_, rfl, batchWrite_base tracks cache.hashBlock⟩
  | cons parent lower ih =>
      obtain ⟨written, defined, after⟩ := batchWrite_tracks tracks cache.hashBlock
      obtain ⟨flushed, done, same⟩ := ih after
      refine ⟨flushed, ?_, same⟩
      rw [flushAll, defined]
      exact done

variable (view)

/-- A single new cache over a base. -/
def start (base : β) : CoinsStack β := ⟨base, [{}]⟩

/-- The map that a base holds: a transaction that it does not know has the empty
coins. -/
def contents (base : β) : CoinsMap := fun txid => (view.getCoins base txid).getD CCoins.clear

theorem refines_start (base : β) : (start base).Refines view (contents view base) := by
  refine ⟨List.cons_ne_nil _ _, ?_⟩
  intro txid
  refine ⟨trivial, ?_, ?_⟩
  · intro entry member
    cases List.mem_singleton.mp member
  · change SameCoins (view.getCoins base txid) _
    unfold contents
    cases found : view.getCoins base txid with
    | none => exact Or.inl ⟨trivial, CCoins.isPruned_clear⟩
    | some coins => exact Or.inr rfl

/-- What is read through the top cache after a list of operations is what the map
holds, and after flushing every layer the base holds the map. -/
def Represents (base : β) (ops : List CacheOp) : Prop :=
  let coins := ops.foldl CacheOp.apply (contents view base)
  ∃ stack, ops.foldlM (CoinsStack.step view) (start base) = some stack ∧
    (∀ txid, SameCoins (stack.accessCoins view txid).2 (some (coins txid)) ∧
      SameCoins (stack.getCoins view txid).2 (some (coins txid)) ∧
      (stack.haveCoins view txid).2 = !(coins txid).isPruned) ∧
    ∃ cache lower flushed, stack.caches = cache :: lower ∧
      flushAll view stack.base cache lower = some flushed ∧
      ∀ txid, SameCoins (view.getCoins flushed txid) (some (coins txid))

/-- **The coin caches refine a plain map**, for modifications that treat all pruned
coins alike. -/
theorem represents_of_alike (base : β) (ops : List CacheOp)
    (alike : ∀ txid change, .modifyCoins txid change ∈ ops → TreatsPrunedAlike change) :
    Represents view base ops := by
  obtain ⟨stack, ran, refines⟩ := (refines_start view base).run alike
  refine ⟨stack, ran, ?_, ?_⟩
  · intro txid
    exact ⟨refines.accessCoins txid, refines.accessCoins txid, refines.haveCoins txid⟩
  · obtain ⟨nonempty, tracks⟩ := refines
    obtain ⟨cache, lower, shape⟩ := List.exists_cons_of_ne_nil nonempty
    rw [shape] at tracks
    obtain ⟨flushed, done, same⟩ := flushAll_eq tracks
    exact ⟨cache, lower, flushed, shape, done, same⟩

/-- The coins of a transaction at height 5. -/
def coinsAtFive : CCoins := { vout := [⟨10 * COIN, [0x51], -10⟩], nHeight := 5 }

/-- Coins are made in a cache, written to the one below, spent there and made again. -/
def remadeCoins : List CacheOp :=
  [.child, .modifyCoins 7 fun _ => coinsAtFive, .close, .modifyCoins 7 fun _ => CCoins.clear,
    .haveCoins 7, .modifyCoins 7 fun _ => coinsAtFive]

theorem represents_remadeCoins : Represents coinsViewDB {} remadeCoins := by
  apply represents_of_alike
  intro txid change member first second _ _
  simp only [remadeCoins, List.mem_cons, reduceCtorEq, CacheOp.modifyCoins.injEq,
    List.not_mem_nil, or_false, false_or] at member
  rcases member with ⟨-, rfl⟩ | ⟨-, rfl⟩ | ⟨-, rfl⟩
  · exact Same.refl _
  · exact Same.refl _
  · exact Same.refl _

/-- Coins whose outputs are taken away and put back, without a new height. -/
def resurrectedCoins : List CacheOp :=
  [.modifyCoins 7 fun _ => coinsAtFive, .modifyCoins 7 fun coins => { coins with vout := [] },
    .modifyCoins 7 fun coins => { coins with vout := coinsAtFive.vout }]

/-- The map remembers the height of the pruned coins, and the cache does not. -/
theorem not_represents_resurrectedCoins :
    ¬ ∀ (β : Type) (view : CCoinsView β) (base : β) (ops : List CacheOp),
      Represents view base ops := by
  intro all
  obtain ⟨stack, ran, reads, -⟩ := all CCoinsViewDB coinsViewDB {} resurrectedCoins
  have cached : (resurrectedCoins.foldlM (CoinsStack.step coinsViewDB) (start {})).map
      (fun stack => (stack.accessCoins coinsViewDB 7).2) =
        some (some { vout := coinsAtFive.vout }) := by
    decide
  have plain : resurrectedCoins.foldl CacheOp.apply (contents coinsViewDB {}) 7 = coinsAtFive := by
    decide
  have same := (reads 7).1
  rw [ran, Option.map_some, Option.some.injEq] at cached
  rw [cached, plain] at same
  rcases same with ⟨pruned, -⟩ | equal
  · have spent : CCoins.isPruned { vout := coinsAtFive.vout } = true := pruned
    exact absurd spent (by decide)
  · exact absurd equal (by decide)

end CoinsStack

end GiantCore
