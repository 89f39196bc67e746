import GiantCore.Coins.Connect
import GiantCore.Foundation.WriteBack

/-! # The coin caches

`CCoinsViewCache` of `coins.cpp`: a stack of caches over a base view, which is the
coin database or a view of the tests. A cache fetches the coins that it is asked
for from the view below, so that looking something up leaves copies on the way. A
modification works on the entry of the top cache, and the modifier's destructor
cleans it up and drops it when it is fresh and pruned. `Flush` merges a cache into
the view below. An assertion that fails is the result `none`.

The plain map of `Coins/Connect` is what a stack represents: `CoinsStack.Refines`
is kept by every operation.
-/

namespace GiantCore

open GiantCore.Foundation.WriteBack

/-- `CCoinsCacheEntry`: the value is the coins, and the flags are `DIRTY` and
`FRESH`. -/
abbrev CCoinsCacheEntry := Entry CCoins

abbrev CCoinsMap := Std.ExtTreeMap Uint256 CCoinsCacheEntry

/-- Coins as `Cleanup` leaves them. -/
def CCoins.Clean (coins : CCoins) : Prop := coins.cleanup = coins

/-- Coins that a reader does not tell apart: pruned coins are as good as none. -/
abbrev SameCoins := Same CCoins.isPruned

/-- The base of a stack, `CCoinsView`. It gives out clean coins, and may or may not
know pruned ones. `BatchWrite` takes over the dirty entries; the others are what
the view holds anyway. -/
structure CCoinsView (β : Type) where
  getCoins : β → Uint256 → Option CCoins
  batchWrite : β → CCoinsMap → Uint256 → β
  clean : ∀ {base txid coins}, getCoins base txid = some coins → coins.Clean
  getCoins_batchWrite : ∀ {base mapCoins} (hashBlock txid),
    (∀ {key entry}, mapCoins[key]? = some entry → entry.value.Clean ∧
      (entry.dirty = false → getCoins base key = some entry.value)) →
    SameCoins (getCoins (batchWrite base mapCoins hashBlock) txid)
      ((mapCoins[txid]?.map Entry.value).or (getCoins base txid))

/-- A cache, with the best block that it passes on. -/
structure CCoinsViewCache where
  hashBlock : Uint256 := 0
  cacheCoins : CCoinsMap := ∅

namespace CCoinsViewCache

/-- One round of the loop of `BatchWrite`. -/
def batchWriteEntry (cache : CCoinsViewCache) (it : Uint256 × CCoinsCacheEntry) :
    Option CCoinsViewCache :=
  -- ignore non-dirty entries
  if it.2.dirty then
    match cache.cacheCoins[it.1]? with
    | none =>
        if !it.2.value.isPruned then
          if it.2.fresh then
            some { cache with cacheCoins :=
              cache.cacheCoins.insert it.1 { value := it.2.value, dirty := true, fresh := true } }
          else none
        else some cache
    | some itUs =>
        if itUs.fresh && it.2.value.isPruned then
          some { cache with cacheCoins := cache.cacheCoins.erase it.1 }
        else
          some { cache with cacheCoins :=
            cache.cacheCoins.insert it.1 { itUs with value := it.2.value, dirty := true } }
  else some cache

/-- `BatchWrite` of a cache. The order of the entries is that of a hash table in the
source, and does not matter. -/
def batchWrite (cache : CCoinsViewCache) (mapCoins : CCoinsMap) (hashBlockIn : Uint256) :
    Option CCoinsViewCache := do
  let written ← mapCoins.toList.foldlM batchWriteEntry cache
  return { written with hashBlock := hashBlockIn }

end CCoinsViewCache

/-- Caches over a base view, the top one first. -/
structure CoinsStack (β : Type) where
  base : β
  caches : List CCoinsViewCache

/-- What is done with a stack, through its top cache. -/
inductive CacheOp where
  | accessCoins (txid : Uint256)
  | getCoins (txid : Uint256)
  | haveCoins (txid : Uint256)
  | modifyCoins (txid : Uint256) (change : CCoins → CCoins)
  | flush
  /-- A new cache on top. -/
  | child
  /-- `Flush` the top cache and destroy it; the last one is replaced. -/
  | close

namespace CoinsStack

variable {β : Type} (view : CCoinsView β)

/-- `FetchCoins`, with the lookups in the views below. -/
def fetchCoins (base : β) (txid : Uint256) :
    List CCoinsViewCache → List CCoinsViewCache × Option CCoins
  | [] => ([], view.getCoins base txid)
  | cache :: lower =>
      match cache.cacheCoins[txid]? with
      | some entry => (cache :: lower, some entry.value)
      | none =>
          match fetchCoins base txid lower with
          | (lower, none) => (cache :: lower, none)
          | (lower, some tmp) =>
              let entry : CCoinsCacheEntry := { value := tmp, fresh := tmp.isPruned }
              ({ cache with cacheCoins := cache.cacheCoins.insert txid entry } :: lower, some tmp)

variable (stack : CoinsStack β)

def accessCoins (txid : Uint256) : CoinsStack β × Option CCoins :=
  let fetched := fetchCoins view stack.base txid stack.caches
  ({ stack with caches := fetched.1 }, fetched.2)

def getCoins (txid : Uint256) : CoinsStack β × Option CCoins := stack.accessCoins view txid

/-- `HaveCoins` asks for outputs, spent or not. -/
def haveCoins (txid : Uint256) : CoinsStack β × Bool :=
  let fetched := stack.accessCoins view txid
  (fetched.1, fetched.2.any fun coins => !coins.vout.isEmpty)

/-- The entry that `ModifyCoins` hands out, without its `DIRTY` flag, and the views
below after the lookup. -/
def openEntry (base : β) (txid : Uint256) (cache : CCoinsViewCache)
    (lower : List CCoinsViewCache) : CCoinsCacheEntry × List CCoinsViewCache :=
  match cache.cacheCoins[txid]? with
  | some entry => (entry, lower)
  | none =>
      match fetchCoins view base txid lower with
      -- the parent view does not have this entry
      | (lower, none) => ({ value := CCoins.clear, fresh := true }, lower)
      | (lower, some coins) => ({ value := coins, fresh := coins.isPruned }, lower)

/-- `ModifyCoins`, the modification through the modifier, and its destructor. -/
def modifyCoins (txid : Uint256) (change : CCoins → CCoins) : CoinsStack β :=
  match stack.caches with
  | [] => stack
  | cache :: lower =>
      let (entry, lower) := openEntry view stack.base txid cache lower
      let coins := (change entry.value).cleanup
      let cacheCoins :=
        if entry.fresh && coins.isPruned then cache.cacheCoins.erase txid
        else cache.cacheCoins.insert txid { value := coins, dirty := true, fresh := entry.fresh }
      { stack with caches := { cache with cacheCoins } :: lower }

/-- `Flush` of the top cache. -/
def flush : Option (CoinsStack β) :=
  match stack.caches with
  | [] => none
  | [cache] =>
      some
        { base := view.batchWrite stack.base cache.cacheCoins cache.hashBlock
          caches := [{ cache with cacheCoins := ∅ }] }
  | cache :: parent :: lower => do
      let parent ← parent.batchWrite cache.cacheCoins cache.hashBlock
      return { stack with caches := { cache with cacheCoins := ∅ } :: parent :: lower }

/-- A new cache on top. -/
def child : CoinsStack β := { stack with caches := {} :: stack.caches }

/-- Flush and destroy the top cache. -/
def close : Option (CoinsStack β) := do
  let flushed ← stack.flush view
  return { flushed with
    caches := if flushed.caches.tail.isEmpty then [{}] else flushed.caches.tail }

def step : CacheOp → Option (CoinsStack β)
  | .accessCoins txid => some (stack.accessCoins view txid).1
  | .getCoins txid => some (stack.getCoins view txid).1
  | .haveCoins txid => some (stack.haveCoins view txid).1
  | .modifyCoins txid change => some (stack.modifyCoins view txid change)
  | .flush => stack.flush view
  | .child => some stack.child
  | .close => stack.close view

/-- Flush every cache, from the top down, into the base. -/
def flushAll (base : β) : CCoinsViewCache → List CCoinsViewCache → Option β
  | cache, [] => some (view.batchWrite base cache.cacheCoins cache.hashBlock)
  | cache, parent :: lower => do
      let parent ← parent.batchWrite cache.cacheCoins cache.hashBlock
      flushAll base parent lower

end CoinsStack

/-- What an operation does to the plain map: only a modification counts. -/
def CacheOp.apply (coins : CoinsMap) : CacheOp → CoinsMap
  | .modifyCoins txid change => coins.modifyCoins txid (change (coins txid))
  | _ => coins

/-! ## What a stack represents -/

namespace CCoins

theorem clean_cleanup (coins : CCoins) : coins.cleanup.Clean := by
  simp only [Clean, cleanup, List.rdropWhile_idempotent]

/-- Clean coins are pruned exactly when they have no outputs. -/
theorem Clean.isPruned_eq {coins : CCoins} (clean : coins.Clean) :
    coins.isPruned = coins.vout.isEmpty := by
  rw [Bool.eq_iff_iff, List.isEmpty_iff]
  constructor
  · intro pruned
    have same : coins.vout.rdropWhile CTxOut.isNull = coins.vout := congrArg vout clean
    rw [← same, List.rdropWhile_eq_nil_iff]
    exact List.all_eq_true.mp pruned
  · intro empty
    rw [isPruned, empty]
    rfl

end CCoins

/-- The entries of one transaction in the caches, the top one first. -/
def column (caches : List CCoinsViewCache) (txid : Uint256) : List (Option CCoinsCacheEntry) :=
  caches.map fun cache => cache.cacheCoins[txid]?

/-- **The refinement of one entry of the plain map.** -/
structure Tracks (base : Option CCoins) (entries : List (Option CCoinsCacheEntry))
    (coins : CCoins) : Prop where
  promise : Column CCoins.isPruned base entries
  clean : ∀ {entry}, some entry ∈ entries → entry.value.Clean
  same : SameCoins (readThrough base entries) (some coins)

namespace Tracks

variable {base : Option CCoins} {top : Option CCoinsCacheEntry}
  {lower : List (Option CCoinsCacheEntry)} {coins : CCoins}

/-- Everything that is read is clean. -/
theorem clean_read {entries : List (Option CCoinsCacheEntry)} {found : CCoins}
    (tracks : Tracks base entries coins) (cleanBase : ∀ {coins}, base = some coins → coins.Clean)
    (reads : readThrough base entries = some found) : found.Clean := by
  rcases readThrough_eq_some reads with ⟨entry, member, rfl⟩ | below
  · exact tracks.clean member
  · exact cleanBase below

theorem fetch {entries : List (Option CCoinsCacheEntry)} (tracks : Tracks base entries coins)
    (cleanBase : ∀ {coins}, base = some coins → coins.Clean) :
    Tracks base (fetch CCoins.isPruned base entries) coins where
  promise := tracks.promise.fetch
  clean := by
    intro entry member
    rcases mem_fetch member with older | copy
    · exact tracks.clean older
    · exact tracks.clean_read cleanBase copy
  same := by
    rw [readThrough_fetch]
    exact tracks.same

/-- A modification, of coins that may be another pruned value than the map's. -/
theorem modify {change : CCoins → CCoins} (tracks : Tracks base (top :: lower) coins)
    (cleanBase : ∀ {coins}, base = some coins → coins.Clean)
    (alike : ∀ {coins}, SameCoins (some (opened CCoins.isPruned CCoins.clear base top lower).value)
      (some coins) → SameCoins
        (some (change (opened CCoins.isPruned CCoins.clear base top lower).value).cleanup)
        (some (change coins).cleanup)) :
    Tracks base
      (closed CCoins.isPruned (opened CCoins.isPruned CCoins.clear base top lower)
          (change (opened CCoins.isPruned CCoins.clear base top lower).value).cleanup ::
        looked CCoins.isPruned base top lower) (change coins).cleanup where
  promise := tracks.promise.write _
  clean := by
    intro entry member
    rcases List.mem_cons.mp member with written | member
    · unfold closed at written
      split at written
      · cases written
      · cases written
        exact CCoins.clean_cleanup _
    · cases top with
      | some first => exact tracks.clean (List.mem_cons_of_mem _ member)
      | none =>
          rcases mem_fetch member with older | copy
          · exact tracks.clean (List.mem_cons_of_mem _ older)
          · exact tracks.clean_read cleanBase copy
  same := by
    have before := (same_opened CCoins.isPruned_clear).trans tracks.same
    exact (same_write tracks.promise _).symm.trans (alike before)

/-- A merge of the top entry into the next one. -/
theorem merge {child : CCoinsCacheEntry} (tracks : Tracks base (some child :: top :: lower) coins) :
    ∃ merged, merge CCoins.isPruned child top = some merged ∧
      Tracks base (none :: merged :: lower) coins := by
  obtain ⟨merged, defined, promise, same⟩ := tracks.promise.merge
  refine ⟨merged, defined, promise, ?_, same.symm.trans tracks.same⟩
  intro entry member
  rw [List.mem_cons, List.mem_cons] at member
  rcases member with absent | rfl | member
  · cases absent
  · rcases merge_value defined with value | rfl
    · rw [value]
      exact tracks.clean List.mem_cons_self
    · exact tracks.clean (List.mem_cons_of_mem _ List.mem_cons_self)
  · exact tracks.clean (List.mem_cons_of_mem _ (List.mem_cons_of_mem _ member))

end Tracks

/-! ## The operations, entry by entry -/

namespace CCoinsViewCache

/-- A round of `BatchWrite` merges one entry and leaves the others. -/
theorem batchWriteEntry_eq (cache : CCoinsViewCache) (txid : Uint256) (entry : CCoinsCacheEntry)
    (merged : Option CCoinsCacheEntry)
    (defined : merge CCoins.isPruned entry cache.cacheCoins[txid]? = some merged) :
    ∃ written, cache.batchWriteEntry (txid, entry) = some written ∧
      written.cacheCoins[txid]? = merged ∧
      ∀ other, other ≠ txid → written.cacheCoins[other]? = cache.cacheCoins[other]? := by
  have kept : ∀ other, other ≠ txid → compare txid other ≠ .eq := by
    intro other different same
    exact different (Std.LawfulEqCmp.compare_eq_iff_eq.mp same).symm
  unfold merge at defined
  unfold batchWriteEntry
  cases dirty : entry.dirty with
  | false =>
      simp only [dirty, Bool.false_eq_true, ↓reduceIte, Option.some.injEq] at defined
      exact ⟨cache, rfl, defined, fun _ _ => rfl⟩
  | true =>
      simp only [dirty, ↓reduceIte] at defined ⊢
      cases found : cache.cacheCoins[txid]? with
      | none =>
          simp only [found] at defined ⊢
          cases pruned : entry.value.isPruned with
          | true =>
              simp only [pruned, ↓reduceIte, Option.some.injEq] at defined
              refine ⟨cache, by simp, ?_, fun _ _ => rfl⟩
              rw [found, defined]
          | false =>
              simp only [pruned, Bool.false_eq_true, ↓reduceIte] at defined
              cases fresh : entry.fresh with
              | false =>
                  rw [fresh] at defined
                  cases defined
              | true =>
                  simp only [fresh, ↓reduceIte, Option.some.injEq] at defined
                  refine ⟨_, rfl, ?_, ?_⟩
                  · simp only [Std.ExtTreeMap.getElem?_insert_self]
                    exact defined
                  · intro other different
                    simp only [Std.ExtTreeMap.getElem?_insert, kept other different, ↓reduceIte]
      | some us =>
          simp only [found] at defined ⊢
          split at defined
          · rename_i gone
            simp only [Option.some.injEq] at defined
            refine ⟨_, if_pos gone, ?_, ?_⟩
            · simp only [Std.ExtTreeMap.getElem?_erase_self]
              exact defined
            · intro other different
              simp only [Std.ExtTreeMap.getElem?_erase, kept other different, ↓reduceIte]
          · rename_i stays
            simp only [Option.some.injEq] at defined
            refine ⟨_, if_neg stays, ?_, ?_⟩
            · simp only [Std.ExtTreeMap.getElem?_insert_self]
              exact defined
            · intro other different
              simp only [Std.ExtTreeMap.getElem?_insert, kept other different, ↓reduceIte]

theorem nodup_keys (mapCoins : CCoinsMap) : (mapCoins.toList.map Prod.fst).Nodup := by
  rw [List.Nodup, List.pairwise_map]
  apply mapCoins.distinct_keys_toList.imp
  intro first second different same
  exact different (Std.LawfulEqCmp.compare_eq_iff_eq.mpr same)

/-- `BatchWrite` merges the entries one by one, if no assertion fails for any. -/
theorem batchWrite_eq {cache : CCoinsViewCache} {mapCoins : CCoinsMap} (hashBlockIn : Uint256)
    (defined : ∀ (txid : Uint256) (entry : CCoinsCacheEntry), mapCoins[txid]? = some entry →
      ∃ merged, merge CCoins.isPruned entry cache.cacheCoins[txid]? = some merged) :
    ∃ written, cache.batchWrite mapCoins hashBlockIn = some written ∧
      ∀ txid : Uint256, match mapCoins[txid]? with
        | none => written.cacheCoins[txid]? = cache.cacheCoins[txid]?
        | some entry => merge CCoins.isPruned entry cache.cacheCoins[txid]? =
            some written.cacheCoins[txid]? := by
  have all : ∀ entry ∈ mapCoins.toList, ∃ merged,
      merge CCoins.isPruned entry.2 cache.cacheCoins[entry.1]? = some merged := by
    intro entry member
    rw [Std.ExtTreeMap.mem_toList_iff_getElem?_eq_some] at member
    exact defined entry.1 entry.2 member
  obtain ⟨final, folded, untouched, merged⟩ := foldlM_lookup
    (fun (cache : CCoinsViewCache) (txid : Uint256) => cache.cacheCoins[txid]?) batchWriteEntry
    (merge CCoins.isPruned) batchWriteEntry_eq (nodup_keys mapCoins) all
  refine ⟨{ final with hashBlock := hashBlockIn }, ?_, ?_⟩
  · simp only [batchWrite, folded]
    rfl
  · intro txid
    cases found : mapCoins[txid]? with
    | none =>
        apply untouched
        intro member
        obtain ⟨entry, listed, rfl⟩ := List.mem_map.mp member
        rw [Std.ExtTreeMap.mem_toList_iff_getElem?_eq_some.mp listed] at found
        cases found
    | some entry =>
        exact merged (txid, entry) (Std.ExtTreeMap.mem_toList_iff_getElem?_eq_some.mpr found)

end CCoinsViewCache

namespace CoinsStack

variable {β : Type} (view : CCoinsView β)

/-- `FetchCoins` returns what is read. -/
theorem snd_fetchCoins (base : β) (txid : Uint256) (caches : List CCoinsViewCache) :
    (fetchCoins view base txid caches).2 =
      readThrough (view.getCoins base txid) (column caches txid) := by
  induction caches with
  | nil => rfl
  | cons cache lower ih =>
      cases found : cache.cacheCoins[txid]? with
      | some entry => simp only [fetchCoins, column, List.map_cons, found, readThrough]
      | none =>
          simp only [fetchCoins, column, List.map_cons, found, readThrough]
          rw [column] at ih
          rw [← ih]
          split
          · rename_i absent
            rw [absent]
          · rename_i present
            rw [present]

/-- `FetchCoins` leaves copies in the entries of one transaction. -/
theorem column_fetchCoins (base : β) (txid key : Uint256) (caches : List CCoinsViewCache) :
    column (fetchCoins view base txid caches).1 key =
      if key = txid then
        fetch CCoins.isPruned (view.getCoins base txid) (column caches txid)
      else column caches key := by
  induction caches with
  | nil => simp [fetchCoins, column, fetch]
  | cons cache lower ih =>
      have below := snd_fetchCoins view base txid lower
      cases found : cache.cacheCoins[txid]? with
      | some entry =>
          by_cases same : key = txid
          · subst same
            simp only [fetchCoins, column, List.map_cons, found, fetch, ↓reduceIte]
          · simp only [fetchCoins, found, same, ↓reduceIte]
      | none =>
          simp only [fetchCoins, found]
          split
          · rename_i lower' absent
            rw [absent] at ih below
            by_cases same : key = txid
            · subst same
              rw [if_pos rfl] at ih ⊢
              simp only [column, List.map_cons, found, fetch] at ih below ⊢
              rw [ih, ← below, Option.map_none]
            · rw [if_neg same] at ih ⊢
              simp only [column, List.map_cons] at ih ⊢
              rw [ih]
          · rename_i lower' tmp present
            rw [present] at ih below
            by_cases same : key = txid
            · subst same
              rw [if_pos rfl] at ih ⊢
              simp only [column, List.map_cons, found, fetch] at ih below ⊢
              rw [ih, ← below, Option.map_some, Std.ExtTreeMap.getElem?_insert_self]
            · have different : compare txid key ≠ .eq := by
                intro equal
                exact same (Std.LawfulEqCmp.compare_eq_iff_eq.mp equal).symm
              rw [if_neg same] at ih ⊢
              simp only [column, List.map_cons] at ih ⊢
              rw [ih, Std.ExtTreeMap.getElem?_insert, if_neg different]

section

variable (base : β) (txid : Uint256) (cache : CCoinsViewCache) (lower : List CCoinsViewCache)

theorem fst_openEntry : (openEntry view base txid cache lower).1 =
    opened CCoins.isPruned CCoins.clear (view.getCoins base txid) cache.cacheCoins[txid]?
      (column lower txid) := by
  have below := snd_fetchCoins view base txid lower
  unfold openEntry
  cases found : cache.cacheCoins[txid]? with
  | some entry => rfl
  | none =>
      simp only [opened]
      rw [← below]
      split
      · rename_i absent
        rw [absent]
      · rename_i present
        rw [present]

theorem column_openEntry (key : Uint256) :
    column (openEntry view base txid cache lower).2 key =
      if key = txid then
        looked CCoins.isPruned (view.getCoins base txid) cache.cacheCoins[txid]? (column lower txid)
      else column lower key := by
  have below := column_fetchCoins view base txid key lower
  unfold openEntry
  cases found : cache.cacheCoins[txid]? with
  | some entry =>
      simp only [looked]
      split
      · rename_i same
        rw [same]
      · rfl
  | none =>
      rw [looked, ← below]
      simp only
      split
      · rename_i absent
        rw [absent]
      · rename_i present
        rw [present]

end

/-- The entries after a modification. -/
theorem column_modifyCoins (base : β) (cache : CCoinsViewCache) (lower : List CCoinsViewCache)
    (txid key : Uint256) (change : CCoins → CCoins) :
    let first := opened CCoins.isPruned CCoins.clear (view.getCoins base txid)
      cache.cacheCoins[txid]? (column lower txid)
    column (modifyCoins view ⟨base, cache :: lower⟩ txid change).caches key =
      if key = txid then
        closed CCoins.isPruned first (change first.value).cleanup ::
          looked CCoins.isPruned (view.getCoins base txid) cache.cacheCoins[txid]?
            (column lower txid)
      else column (cache :: lower) key := by
  intro first
  have rest := column_openEntry view base txid cache lower key
  have start : (openEntry view base txid cache lower).1 = first :=
    fst_openEntry view base txid cache lower
  simp only [modifyCoins, start]
  rw [column, List.map_cons, ← column, rest]
  by_cases same : key = txid
  · subst same
    rw [if_pos rfl, if_pos rfl, closed]
    split
    · rw [Std.ExtTreeMap.getElem?_erase_self]
    · rw [Std.ExtTreeMap.getElem?_insert_self]
  · have different : compare txid key ≠ .eq := by
      intro equal
      exact same (Std.LawfulEqCmp.compare_eq_iff_eq.mp equal).symm
    rw [if_neg same, if_neg same]
    split
    · rw [Std.ExtTreeMap.getElem?_erase, if_neg different]
      rfl
    · rw [Std.ExtTreeMap.getElem?_insert, if_neg different]
      rfl

end CoinsStack

/-! ## The coin database -/

/-- `CCoinsViewDB` of `txdb.cpp`. Reading an entry cleans it up, so the entries are
kept as they are read. -/
structure CCoinsViewDB where
  db : Std.ExtTreeMap Uint256 CCoins := ∅
  hashBestChain : Uint256 := 0
  clean : ∀ {txid : Uint256} {coins : CCoins}, db[txid]? = some coins → coins.Clean := by
    simp

namespace CCoinsViewDB

/-- `BatchWriteCoins` of a dirty entry: pruned coins are erased. -/
def batchWriteCoins (base : CCoinsViewDB) (it : Uint256 × CCoinsCacheEntry) : CCoinsViewDB :=
  if it.2.dirty then
    if it.2.value.isPruned then
      { base with
        db := base.db.erase it.1
        clean := by
          intro txid coins found
          rw [Std.ExtTreeMap.getElem?_erase] at found
          split at found
          · cases found
          · exact base.clean found }
    else
      { base with
        db := base.db.insert it.1 it.2.value.cleanup
        clean := by
          intro txid coins found
          rw [Std.ExtTreeMap.getElem?_insert] at found
          split at found
          · cases found
            exact CCoins.clean_cleanup _
          · exact base.clean found }
  else base

def batchWrite (base : CCoinsViewDB) (mapCoins : CCoinsMap) (hashBlock : Uint256) : CCoinsViewDB :=
  let written := mapCoins.toList.foldl batchWriteCoins base
  if hashBlock = 0 then written else { written with hashBestChain := hashBlock }

/-- What a round of `BatchWrite` leaves in the entry that it writes. -/
def written (entry : CCoinsCacheEntry) (old : Option CCoins) : Option CCoins :=
  if entry.dirty then
    if entry.value.isPruned then none else some entry.value.cleanup
  else old

theorem batchWriteCoins_eq (base : CCoinsViewDB) (txid : Uint256) (entry : CCoinsCacheEntry)
    (result : Option CCoins) (defined : some (written entry base.db[txid]?) = some result) :
    ∃ next, some (base.batchWriteCoins (txid, entry)) = some next ∧ next.db[txid]? = result ∧
      ∀ other, other ≠ txid → next.db[other]? = base.db[other]? := by
  have kept : ∀ other, other ≠ txid → compare txid other ≠ .eq := by
    intro other different same
    exact different (Std.LawfulEqCmp.compare_eq_iff_eq.mp same).symm
  cases defined
  refine ⟨_, rfl, ?_, ?_⟩
  · unfold batchWriteCoins written
    split
    · split
      · simp only [Std.ExtTreeMap.getElem?_erase_self]
      · simp only [Std.ExtTreeMap.getElem?_insert_self]
    · rfl
  · intro other different
    unfold batchWriteCoins
    split
    · split
      · simp only [Std.ExtTreeMap.getElem?_erase, kept other different, ↓reduceIte]
      · simp only [Std.ExtTreeMap.getElem?_insert, kept other different, ↓reduceIte]
    · rfl

/-- The entries of the database after `BatchWrite`. -/
theorem getElem?_batchWrite (base : CCoinsViewDB) (mapCoins : CCoinsMap)
    (hashBlock txid : Uint256) :
    (base.batchWrite mapCoins hashBlock).db[txid]? =
      match mapCoins[txid]? with
      | none => base.db[txid]?
      | some entry => written entry base.db[txid]? := by
  have same : (base.batchWrite mapCoins hashBlock).db =
      (mapCoins.toList.foldl batchWriteCoins base).db := by
    unfold batchWrite
    split <;> rfl
  have all : ∀ entry ∈ mapCoins.toList,
      ∃ result, some (written entry.2 base.db[entry.1]?) = some result := by
    intro entry _
    exact ⟨_, rfl⟩
  obtain ⟨final, folded, untouched, merged⟩ := foldlM_lookup
    (fun (base : CCoinsViewDB) (txid : Uint256) => base.db[txid]?)
    (fun base it => some (batchWriteCoins base it)) (fun entry old => some (written entry old))
    batchWriteCoins_eq (CCoinsViewCache.nodup_keys mapCoins) all
  have total : mapCoins.toList.foldlM (fun base it => some (batchWriteCoins base it)) base =
      some (mapCoins.toList.foldl batchWriteCoins base) := List.foldlM_pure
  rw [total] at folded
  cases folded
  rw [same]
  cases found : mapCoins[txid]? with
  | none =>
      apply untouched
      intro member
      obtain ⟨entry, listed, rfl⟩ := List.mem_map.mp member
      rw [Std.ExtTreeMap.mem_toList_iff_getElem?_eq_some.mp listed] at found
      cases found
  | some entry =>
      have listed := Std.ExtTreeMap.mem_toList_iff_getElem?_eq_some.mpr found
      exact (Option.some.inj (merged (txid, entry) listed)).symm

end CCoinsViewDB

/-- The coin database is a base view. -/
def coinsViewDB : CCoinsView CCoinsViewDB where
  getCoins base txid := base.db[txid]?
  batchWrite := CCoinsViewDB.batchWrite
  clean := by
    intro base txid coins found
    exact base.clean found
  getCoins_batchWrite := by
    intro base mapCoins hashBlock txid known
    rw [CCoinsViewDB.getElem?_batchWrite]
    cases found : mapCoins[txid]? with
    | none => exact Or.inr rfl
    | some entry =>
        obtain ⟨clean, unchanged⟩ := known found
        simp only [Option.map_some, Option.some_or, CCoinsViewDB.written]
        split
        · split
          · rename_i pruned
            exact Or.inl ⟨trivial, pruned⟩
          · exact Or.inr (congrArg some clean)
        · rename_i stale
          exact Or.inr (unchanged (Bool.not_eq_true _ ▸ stale))

end GiantCore
