import GiantCore.Masternode.Broadcast

/-! # Cleaning the masternode list

`CheckAndRemove` drops masternodes, what was seen of them, and whatever is too old. Its loop over
the old announcements erases an entry, which moves the iterator on, and reads the hash to forget
from where the iterator is then. This is the hash of the next entry, if there is one. The cleaning
is exact if and only if neighbours agree (`checkAndRemove_exact_iff`).

The maps are lists of entries in the order of their keys.
-/

namespace GiantCore

/-- The tables that `CheckAndRemove` cleans. -/
structure MasternodeCaches where
  vMasternodes : List CMasternode
  mAskedUsForMasternodeList : List (List UInt8 × Int) := []
  mWeAskedForMasternodeList : List (List UInt8 × Int) := []
  mWeAskedForMasternodeListEntry : List (COutPoint × Int) := []
  mapSeenMasternodeBroadcast : List (Uint256 × CMasternodeBroadcast) := []
  mapSeenMasternodePing : List (Uint256 × CMasternodePing) := []
  mapSeenSyncMNB : List (Uint256 × Int) := []
  deriving DecidableEq, Repr

namespace MasternodeCaches

variable (node : NodeContext) (hashes : MasternodeHashes)

/-- `map::erase` of a key. -/
def eraseKey (hash : Uint256) (entries : List (Uint256 × Int)) : List (Uint256 × Int) :=
  entries.filter fun entry => entry.1 != hash

/-- A masternode that is removed. -/
def isRemovable (forceExpiredRemoval : Bool) (mn : CMasternode) : Bool :=
  mn.activeState == .remove || mn.activeState == .vinSpent ||
    (forceExpiredRemoval && mn.activeState == .expired) ||
    decide (mn.protocolVersion < node.activeProtocol)

/-- The loop over the announcements of one input: those that stay, and the sync counts. -/
def eraseBroadcasts (vin : CTxIn) : List (Uint256 × CMasternodeBroadcast) → List (Uint256 × Int) →
    List (Uint256 × CMasternodeBroadcast) × List (Uint256 × Int)
  | [], sync => ([], sync)
  | it3 :: rest, sync =>
      if it3.2.vin = vin then eraseBroadcasts vin rest (eraseKey it3.1 sync)
      else
        let (seen, sync) := eraseBroadcasts vin rest sync
        (it3 :: seen, sync)

/-- What is forgotten with a masternode. -/
def forget (mn : CMasternode) (caches : MasternodeCaches) : MasternodeCaches :=
  let (seen, sync) := eraseBroadcasts mn.vin caches.mapSeenMasternodeBroadcast caches.mapSeenSyncMNB
  { caches with
    mapSeenMasternodeBroadcast := seen
    mapSeenSyncMNB := sync
    mWeAskedForMasternodeListEntry :=
      caches.mWeAskedForMasternodeListEntry.filter fun it2 => it2.1 != mn.vin.prevout }

/-- The loop over the masternodes: those that stay, and the tables. -/
def removeInactive (forceExpiredRemoval : Bool) : List CMasternode → MasternodeCaches →
    List CMasternode × MasternodeCaches
  | [], caches => ([], caches)
  | mn :: rest, caches =>
      if isRemovable node forceExpiredRemoval mn then
        removeInactive forceExpiredRemoval rest (caches.forget mn)
      else
        let (kept, caches) := removeInactive forceExpiredRemoval rest caches
        (mn :: kept, caches)

/-- A time that is too long ago for what was seen. -/
def isExpired (sigTime : Int) : Bool :=
  decide (sigTime < node.time - CMasternode.removalSeconds * 2)

/-- The loop over the old announcements, which reads the hash of the next entry. There is nothing
at the end of the map. -/
def eraseExpired : List (Uint256 × CMasternodeBroadcast) → List (Uint256 × Int) →
    Option (List (Uint256 × CMasternodeBroadcast) × List (Uint256 × Int))
  | [], sync => some ([], sync)
  | it3 :: rest, sync =>
      if isExpired node it3.2.lastPing.sigTime then
        match rest with
        | [] => none
        | next :: _ => eraseExpired rest (eraseKey (next.2.getHash hashes) sync)
      else (eraseExpired rest sync).map fun (seen, sync) => (it3 :: seen, sync)

/-- `CheckAndRemove`, or nothing when it reads behind the end of a map. -/
def checkAndRemove (forceExpiredRemoval : Bool) (caches : MasternodeCaches) :
    Option MasternodeCaches :=
  let checked := caches.vMasternodes.map (CMasternode.check node)
  let (kept, caches) := removeInactive node forceExpiredRemoval checked caches
  let old := fun {α : Type} (entry : α × Int) => !decide (entry.2 < node.time)
  (eraseExpired node hashes caches.mapSeenMasternodeBroadcast caches.mapSeenSyncMNB).map
    fun (seen, sync) =>
      { vMasternodes := kept
        mAskedUsForMasternodeList := caches.mAskedUsForMasternodeList.filter old
        mWeAskedForMasternodeList := caches.mWeAskedForMasternodeList.filter old
        mWeAskedForMasternodeListEntry := caches.mWeAskedForMasternodeListEntry.filter old
        mapSeenMasternodeBroadcast := seen
        mapSeenMasternodePing :=
          caches.mapSeenMasternodePing.filter fun it4 => !isExpired node it4.2.sigTime
        mapSeenSyncMNB := sync }

/-! ## What should happen -/

variable (forceExpiredRemoval : Bool) (caches : MasternodeCaches)

/-- The masternodes that stay, after `Check`. -/
def remaining : List CMasternode :=
  (caches.vMasternodes.map (CMasternode.check node)).filter fun mn =>
    !isRemovable node forceExpiredRemoval mn

/-- An announcement of a masternode that stays, or of none that was there. -/
def OfRemaining (mnb : CMasternodeBroadcast) : Prop :=
  (∃ mn ∈ caches.remaining node forceExpiredRemoval, mn.vin = mnb.vin) ∨
    ∀ mn ∈ caches.vMasternodes, mn.vin ≠ mnb.vin

/-- An announcement that should be kept. -/
def Kept (mnb : CMasternodeBroadcast) : Prop :=
  caches.OfRemaining node forceExpiredRemoval mnb ∧ isExpired node mnb.lastPing.sigTime = false

instance (mnb : CMasternodeBroadcast) :
    Decidable (caches.OfRemaining node forceExpiredRemoval mnb) :=
  inferInstanceAs (Decidable (_ ∨ _))

instance (mnb : CMasternodeBroadcast) : Decidable (caches.Kept node forceExpiredRemoval mnb) :=
  inferInstanceAs (Decidable (_ ∧ _))

/-- The sync count is one of an announcement that should be dropped. -/
def OfDropped (hash : Uint256) : Prop :=
  ∃ entry ∈ caches.mapSeenMasternodeBroadcast,
    ¬ caches.Kept node forceExpiredRemoval entry.2 ∧ entry.2.getHash hashes = hash

instance (hash : Uint256) : Decidable (caches.OfDropped node hashes forceExpiredRemoval hash) :=
  inferInstanceAs (Decidable (∃ entry ∈ caches.mapSeenMasternodeBroadcast, _))

/-- **The cleaning is exact**: no end is read, the masternodes and the announcements that should
stay are left, and of the sync counts those of the dropped announcements are gone. -/
def CleansExactly : Prop :=
  ∃ after, checkAndRemove node hashes forceExpiredRemoval caches = some after ∧
    after.vMasternodes = caches.remaining node forceExpiredRemoval ∧
    after.mapSeenMasternodeBroadcast = (caches.mapSeenMasternodeBroadcast.filter fun entry =>
      decide (caches.Kept node forceExpiredRemoval entry.2)) ∧
    after.mapSeenSyncMNB = caches.mapSeenSyncMNB.filter fun entry =>
      !decide (caches.OfDropped node hashes forceExpiredRemoval entry.1)

/-- What holds of the tables: a masternode is added once, and announcements are stored under their
hashes. -/
structure WellFormed : Prop where
  once : (caches.vMasternodes.map CMasternode.vin).Nodup
  keyed : ∀ entry ∈ caches.mapSeenMasternodeBroadcast, entry.2.getHash hashes = entry.1
  nodup : (caches.mapSeenMasternodeBroadcast.map Prod.fst).Nodup

/-- Neighbours among announcements agree: the last one is not too old, and one whose sync count is
there is too old exactly if it follows one that is. -/
structure NeighboursAgree (entries : List (Uint256 × CMasternodeBroadcast))
    (sync : List (Uint256 × Int)) : Prop where
  last : ∀ entry, entries.getLast? = some entry → isExpired node entry.2.lastPing.sigTime = false
  first : ∀ entry, entries[0]? = some entry → entry.1 ∈ sync.map Prod.fst →
    isExpired node entry.2.lastPing.sigTime = false
  next : ∀ i entry following, entries[i]? = some entry → entries[i + 1]? = some following →
    following.1 ∈ sync.map Prod.fst →
      isExpired node following.2.lastPing.sigTime = isExpired node entry.2.lastPing.sigTime

/-! ## The loop over the masternodes -/

/-- An announcement of a masternode that is removed. -/
def isGone (mns : List CMasternode) (mnb : CMasternodeBroadcast) : Bool :=
  mns.any fun mn => isRemovable node forceExpiredRemoval mn && mn.vin == mnb.vin

variable {node hashes forceExpiredRemoval caches}

theorem eraseBroadcasts_eq (vin : CTxIn) (seen : List (Uint256 × CMasternodeBroadcast))
    (sync : List (Uint256 × Int)) :
    eraseBroadcasts vin seen sync =
      (seen.filter fun it3 => !(vin == it3.2.vin),
        sync.filter fun entry => !seen.any fun it3 => vin == it3.2.vin && it3.1 == entry.1) := by
  induction seen generalizing sync with
  | nil => simp [eraseBroadcasts]
  | cons it3 rest ih =>
      rw [eraseBroadcasts]
      by_cases same : it3.2.vin = vin
      · rw [if_pos same, ih, eraseKey, List.filter_filter]
        subst same
        refine Prod.ext (by simp) ?_
        dsimp only
        apply List.filter_congr
        intro entry _
        rw [List.any_cons, beq_self_eq_true, Bool.true_and, Bool.not_or, Bool.and_comm, bne_comm]
        rfl
      · rw [if_neg same, ih]
        have other : (vin == it3.2.vin) = false := beq_eq_false_iff_ne.mpr (Ne.symm same)
        refine Prod.ext ?_ ?_
        · simp [other]
        · simp [other]

/-- **The first loop**: the removable masternodes go, with their announcements and the counts of
these. -/
theorem removeInactive_eq (mns : List CMasternode) (caches : MasternodeCaches) :
    (removeInactive node forceExpiredRemoval mns caches).1 =
        mns.filter (fun mn => !isRemovable node forceExpiredRemoval mn) ∧
      (removeInactive node forceExpiredRemoval mns caches).2.mapSeenMasternodeBroadcast =
        caches.mapSeenMasternodeBroadcast.filter
          (fun it3 => !isGone node forceExpiredRemoval mns it3.2) ∧
      (removeInactive node forceExpiredRemoval mns caches).2.mapSeenSyncMNB =
        caches.mapSeenSyncMNB.filter fun entry =>
          !caches.mapSeenMasternodeBroadcast.any fun it3 =>
            isGone node forceExpiredRemoval mns it3.2 && it3.1 == entry.1 := by
  induction mns generalizing caches with
  | nil =>
      refine ⟨rfl, by simp [removeInactive, isGone], ?_⟩
      symm
      apply List.filter_eq_self.mpr
      intro entry _
      rw [Bool.not_eq_true', List.any_eq_false]
      simp [isGone]
  | cons mn rest ih =>
      rw [removeInactive]
      cases removable : isRemovable node forceExpiredRemoval mn with
      | true =>
          obtain ⟨kept, seen, sync⟩ := ih (caches.forget mn)
          rw [if_pos rfl]
          refine ⟨?_, ?_, ?_⟩
          · rw [kept, List.filter_cons_of_neg (by simp [removable])]
          · rw [seen, forget, eraseBroadcasts_eq]
            dsimp only
            rw [List.filter_filter]
            apply List.filter_congr
            intro it3 _
            simp only [isGone, List.any_cons, removable, Bool.true_and, Bool.not_or]
            exact Bool.and_comm _ _
          · rw [sync, forget, eraseBroadcasts_eq]
            dsimp only
            rw [List.filter_filter]
            apply List.filter_congr
            intro entry _
            rw [Bool.eq_iff_iff]
            simp only [isGone, List.any_cons, removable, Bool.true_and, Bool.and_eq_true,
              Bool.not_eq_true', List.any_eq_false, List.mem_filter, Bool.or_eq_true, not_and]
            constructor
            · rintro ⟨others, own⟩ it3 stored gone
              cases same : mn.vin == it3.2.vin with
              | true => exact own it3 stored same
              | false =>
                  refine others it3 ⟨stored, same⟩ (gone.resolve_left ?_)
                  rw [same]
                  exact Bool.false_ne_true
            · intro every
              exact ⟨fun it3 stored gone => every it3 stored.1 (.inr gone),
                fun it3 stored same => every it3 stored (.inl same)⟩
      | false =>
          obtain ⟨kept, seen, sync⟩ := ih caches
          rw [if_neg Bool.false_ne_true]
          dsimp only
          refine ⟨?_, ?_, ?_⟩
          · rw [kept, List.filter_cons_of_pos (by simp [removable])]
          · rw [seen]
            simp [isGone, removable]
          · rw [sync]
            simp [isGone, removable]

/-! ## The loop over the old announcements -/

/-- The hashes that the loop reads. -/
def followers (node : NodeContext) (hashes : MasternodeHashes) :
    List (Uint256 × CMasternodeBroadcast) → List Uint256
  | [] => []
  | it3 :: rest =>
      if isExpired node it3.2.lastPing.sigTime then
        (rest.head?.map fun next => next.2.getHash hashes).toList ++ followers node hashes rest
      else followers node hashes rest

theorem mem_followers {entries : List (Uint256 × CMasternodeBroadcast)} {hash : Uint256} :
    hash ∈ followers node hashes entries ↔
      ∃ i entry following, entries[i]? = some entry ∧ entries[i + 1]? = some following ∧
        isExpired node entry.2.lastPing.sigTime = true ∧ following.2.getHash hashes = hash := by
  induction entries with
  | nil => simp [followers]
  | cons it3 rest ih =>
      have later : (∃ i entry following, (it3 :: rest)[i]? = some entry ∧
          (it3 :: rest)[i + 1]? = some following ∧
          isExpired node entry.2.lastPing.sigTime = true ∧ following.2.getHash hashes = hash) ↔
        (isExpired node it3.2.lastPing.sigTime = true ∧
          ∃ following, rest.head? = some following ∧ following.2.getHash hashes = hash) ∨
        hash ∈ followers node hashes rest := by
        rw [ih]
        constructor
        · rintro ⟨i, entry, following, here, behind, expired, same⟩
          cases i with
          | zero =>
              cases here
              rw [List.getElem?_cons_succ, ← List.head?_eq_getElem?] at behind
              exact .inl ⟨expired, following, behind, same⟩
          | succ i => exact .inr ⟨i, entry, following, here, behind, expired, same⟩
        · rintro (⟨expired, following, behind, same⟩ | ⟨i, entry, following, rest⟩)
          · rw [List.head?_eq_getElem?] at behind
            exact ⟨0, it3, following, rfl, behind, expired, same⟩
          · exact ⟨i + 1, entry, following, rest⟩
      rw [later, followers]
      cases expired : isExpired node it3.2.lastPing.sigTime with
      | true =>
          rw [if_pos rfl, List.mem_append, Option.mem_toList, Option.map_eq_some_iff]
          simp
      | false => simp

/-- **The second loop** fails at an old last entry, and otherwise forgets what it reads. -/
theorem eraseExpired_eq (entries : List (Uint256 × CMasternodeBroadcast))
    (sync : List (Uint256 × Int)) :
    eraseExpired node hashes entries sync =
      if entries.getLast?.any fun entry => isExpired node entry.2.lastPing.sigTime then none
      else some (entries.filter fun entry => !isExpired node entry.2.lastPing.sigTime,
        sync.filter fun entry => !(followers node hashes entries).contains entry.1) := by
  induction entries generalizing sync with
  | nil => simp [eraseExpired, followers]
  | cons it3 rest ih =>
      cases expired : isExpired node it3.2.lastPing.sigTime with
      | true =>
          rw [List.filter_cons_of_neg (by simp [expired])]
          cases rest with
          | nil => simp [eraseExpired, expired]
          | cons next rest =>
              rw [eraseExpired, followers, expired, if_pos rfl, if_pos rfl, ih,
                List.getLast?_cons_cons]
              split
              · rfl
              · congr 2
                rw [eraseKey, List.filter_filter]
                apply List.filter_congr
                intro entry _
                simp only [List.head?_cons, Option.map_some, Option.toList_some,
                  List.singleton_append, List.contains_cons, Bool.not_or, bne]
                exact Bool.and_comm _ _
      | false =>
          rw [List.filter_cons_of_pos (by simp [expired])]
          cases rest with
          | nil => simp [eraseExpired, expired, followers]
          | cons next rest =>
              rw [eraseExpired, followers, expired, if_neg Bool.false_ne_true,
                if_neg Bool.false_ne_true, ih, List.getLast?_cons_cons]
              split
              · rfl
              · rfl

/-! ## The condition -/

/-- The announcements that the first loop leaves. -/
def left (node : NodeContext) (forceExpiredRemoval : Bool) (caches : MasternodeCaches) :
    List (Uint256 × CMasternodeBroadcast) :=
  caches.mapSeenMasternodeBroadcast.filter fun entry =>
    !isGone node forceExpiredRemoval (caches.vMasternodes.map (CMasternode.check node)) entry.2

theorem isGone_iff (wellFormed : caches.WellFormed hashes) (mnb : CMasternodeBroadcast) :
    isGone node forceExpiredRemoval (caches.vMasternodes.map (CMasternode.check node)) mnb = true ↔
      ¬ caches.OfRemaining node forceExpiredRemoval mnb := by
  unfold isGone OfRemaining remaining
  rw [List.any_eq_true, not_or]
  constructor
  · rintro ⟨mn, listed, removed⟩
    rw [Bool.and_eq_true, beq_iff_eq] at removed
    obtain ⟨pmn, stored, rfl⟩ := List.mem_map.mp listed
    refine ⟨?_, fun unknown => unknown pmn stored ?_⟩
    · rintro ⟨other, remains, same⟩
      obtain ⟨checked, kept⟩ := List.mem_filter.mp remains
      obtain ⟨another, alsoStored, rfl⟩ := List.mem_map.mp checked
      have together : another = pmn := by
        apply List.inj_on_of_nodup_map wellFormed.once alsoStored stored
        rw [← CMasternode.vin_check node another, same, ← removed.2, CMasternode.vin_check]
      rw [together, removed.1] at kept
      cases kept
    · rw [← removed.2, CMasternode.vin_check]
  · rintro ⟨notRemaining, known⟩
    push Not at known
    obtain ⟨mn, stored, same⟩ := known
    have listed := List.mem_map_of_mem (f := CMasternode.check node) stored
    refine ⟨_, listed, ?_⟩
    rw [Bool.and_eq_true, beq_iff_eq, CMasternode.vin_check]
    refine ⟨?_, same⟩
    by_contra stays
    refine notRemaining ⟨_, List.mem_filter.mpr ⟨listed, by simpa using stays⟩, ?_⟩
    rw [CMasternode.vin_check, same]

/-- The announcements that should stay are those that both loops leave. -/
theorem kept_iff (wellFormed : caches.WellFormed hashes) (mnb : CMasternodeBroadcast) :
    caches.Kept node forceExpiredRemoval mnb ↔
      isGone node forceExpiredRemoval (caches.vMasternodes.map (CMasternode.check node)) mnb =
        false ∧ isExpired node mnb.lastPing.sigTime = false := by
  unfold Kept
  rw [← Bool.not_eq_true (isGone _ _ _ _), isGone_iff wellFormed, not_not]

/-- The announcements of removed masternodes, which the first loop drops. -/
def OfGone (node : NodeContext) (forceExpiredRemoval : Bool) (caches : MasternodeCaches)
    (hash : Uint256) : Prop :=
  ∃ entry ∈ caches.mapSeenMasternodeBroadcast, isGone node forceExpiredRemoval
    (caches.vMasternodes.map (CMasternode.check node)) entry.2 = true ∧ entry.1 = hash

theorem checkAndRemove_of_last
    (last : ∀ entry, (caches.left node forceExpiredRemoval).getLast? = some entry →
      isExpired node entry.2.lastPing.sigTime = false) :
    ∃ after, checkAndRemove node hashes forceExpiredRemoval caches = some after ∧
      after.vMasternodes = caches.remaining node forceExpiredRemoval ∧
      after.mapSeenMasternodeBroadcast = ((caches.left node forceExpiredRemoval).filter
        fun entry => !isExpired node entry.2.lastPing.sigTime) ∧
      ∃ stays, after.mapSeenSyncMNB = caches.mapSeenSyncMNB.filter stays ∧
        ∀ entry, stays entry = true ↔ ¬ caches.OfGone node forceExpiredRemoval entry.1 ∧
          entry.1 ∉ followers node hashes (caches.left node forceExpiredRemoval) := by
  obtain ⟨kept, seen, sync⟩ := @removeInactive_eq node forceExpiredRemoval
    (caches.vMasternodes.map (CMasternode.check node)) caches
  have unread : ¬ ((caches.left node forceExpiredRemoval).getLast?.any fun entry =>
      isExpired node entry.2.lastPing.sigTime) = true := by
    rw [Option.any_eq_true]
    rintro ⟨entry, found, expired⟩
    rw [last entry found] at expired
    cases expired
  unfold checkAndRemove
  dsimp only
  rw [eraseExpired_eq, seen, ← left, if_neg unread, Option.map_some, sync, List.filter_filter]
  refine ⟨_, rfl, kept, rfl, _, rfl, ?_⟩
  intro entry
  rw [Bool.and_eq_true, and_comm]
  refine and_congr ?_ ?_
  · simp only [OfGone, not_exists, not_and, Bool.not_eq_true', List.any_eq_false,
      Bool.and_eq_true, beq_iff_eq]
  · simp

theorem checkAndRemove_of_not_last {entry : Uint256 × CMasternodeBroadcast}
    (last : (caches.left node forceExpiredRemoval).getLast? = some entry)
    (expired : isExpired node entry.2.lastPing.sigTime = true) :
    checkAndRemove node hashes forceExpiredRemoval caches = none := by
  obtain ⟨-, seen, -⟩ := @removeInactive_eq node forceExpiredRemoval
    (caches.vMasternodes.map (CMasternode.check node)) caches
  unfold checkAndRemove
  dsimp only
  rw [eraseExpired_eq, seen, ← left, last]
  simp [expired]

theorem mem_left {entry : Uint256 × CMasternodeBroadcast} :
    entry ∈ caches.left node forceExpiredRemoval ↔
      entry ∈ caches.mapSeenMasternodeBroadcast ∧ isGone node forceExpiredRemoval
        (caches.vMasternodes.map (CMasternode.check node)) entry.2 = false := by
  rw [left, List.mem_filter, Bool.not_eq_true']

/-- The dropped announcements are those of removed masternodes and the old ones. -/
theorem ofDropped_iff (wellFormed : caches.WellFormed hashes) (hash : Uint256) :
    caches.OfDropped node hashes forceExpiredRemoval hash ↔
      caches.OfGone node forceExpiredRemoval hash ∨
        ∃ entry ∈ caches.left node forceExpiredRemoval,
          isExpired node entry.2.lastPing.sigTime = true ∧ entry.1 = hash := by
  unfold OfDropped OfGone
  constructor
  · rintro ⟨entry, stored, dropped, rfl⟩
    rw [kept_iff wellFormed, not_and_or, Bool.not_eq_false, Bool.not_eq_false] at dropped
    have keyed := wellFormed.keyed entry stored
    cases gone : isGone node forceExpiredRemoval
        (caches.vMasternodes.map (CMasternode.check node)) entry.2 with
    | true => exact .inl ⟨entry, stored, gone, keyed.symm⟩
    | false =>
        refine .inr ⟨entry, mem_left.mpr ⟨stored, gone⟩, dropped.resolve_left ?_, keyed.symm⟩
        rw [gone]
        exact Bool.false_ne_true
  · rintro (⟨entry, stored, gone, rfl⟩ | ⟨entry, stays, expired, rfl⟩)
    · refine ⟨entry, stored, ?_, wellFormed.keyed entry stored⟩
      rw [kept_iff wellFormed, gone]
      exact fun kept => Bool.noConfusion kept.1
    · obtain ⟨stored, -⟩ := mem_left.mp stays
      refine ⟨entry, stored, ?_, wellFormed.keyed entry stored⟩
      rw [kept_iff wellFormed, expired]
      exact fun kept => Bool.noConfusion kept.2

/-- The kept announcements are left by both loops. -/
theorem filter_left (wellFormed : caches.WellFormed hashes) :
    ((caches.left node forceExpiredRemoval).filter fun entry =>
        !isExpired node entry.2.lastPing.sigTime) =
      caches.mapSeenMasternodeBroadcast.filter fun entry =>
        decide (caches.Kept node forceExpiredRemoval entry.2) := by
  rw [left, List.filter_filter]
  apply List.filter_congr
  intro entry _
  rw [Bool.eq_iff_iff, decide_eq_true_eq, kept_iff wellFormed, Bool.and_eq_true,
    Bool.not_eq_true', Bool.not_eq_true', and_comm]

/-- Two entries of one key are at one place. -/
theorem place_inj (wellFormed : caches.WellFormed hashes) {i j : Nat}
    {first second : Uint256 × CMasternodeBroadcast}
    (here : (caches.left node forceExpiredRemoval)[i]? = some first)
    (there : (caches.left node forceExpiredRemoval)[j]? = some second)
    (same : first.1 = second.1) : i = j := by
  have nodup : ((caches.left node forceExpiredRemoval).map Prod.fst).Nodup :=
    wellFormed.nodup.sublist (List.filter_sublist.map _)
  obtain ⟨inside, -⟩ := List.getElem?_eq_some_iff.mp here
  refine (List.getElem?_inj (by simpa using inside) nodup).mp ?_
  rw [List.getElem?_map, List.getElem?_map, here, there, Option.map_some, Option.map_some, same]

/-- What is left was not dropped with a masternode. -/
theorem not_ofGone_of_left (wellFormed : caches.WellFormed hashes)
    {entry : Uint256 × CMasternodeBroadcast}
    (stays : entry ∈ caches.left node forceExpiredRemoval) :
    ¬ caches.OfGone node forceExpiredRemoval entry.1 := by
  rintro ⟨other, stored, gone, same⟩
  obtain ⟨alsoStored, notGone⟩ := mem_left.mp stays
  rw [List.inj_on_of_nodup_map wellFormed.nodup stored alsoStored same, notGone] at gone
  cases gone

/-- The hashes that are read are those of old announcements, as far as there are counts. -/
def ReadsDropped (node : NodeContext) (hashes : MasternodeHashes) (forceExpiredRemoval : Bool)
    (caches : MasternodeCaches) : Prop :=
  ∀ entry ∈ caches.mapSeenSyncMNB, ¬ caches.OfGone node forceExpiredRemoval entry.1 →
    (entry.1 ∈ followers node hashes (caches.left node forceExpiredRemoval) ↔
      ∃ dropped ∈ caches.left node forceExpiredRemoval,
        isExpired node dropped.2.lastPing.sigTime = true ∧ dropped.1 = entry.1)

theorem readsDropped_iff (wellFormed : caches.WellFormed hashes)
    (last : ∀ entry, (caches.left node forceExpiredRemoval).getLast? = some entry →
      isExpired node entry.2.lastPing.sigTime = false) :
    caches.ReadsDropped node hashes forceExpiredRemoval ↔
      NeighboursAgree node (caches.left node forceExpiredRemoval) caches.mapSeenSyncMNB := by
  have keyed {i : Nat} {entry : Uint256 × CMasternodeBroadcast}
      (here : (caches.left node forceExpiredRemoval)[i]? = some entry) :
      entry.2.getHash hashes = entry.1 :=
    wellFormed.keyed entry (mem_left.mp (List.mem_of_getElem? here)).1
  constructor
  · intro reads
    refine ⟨last, ?_, ?_⟩
    · intro entry here counted
      obtain ⟨count, stored, same⟩ := List.mem_map.mp counted
      have stays := List.mem_of_getElem? here
      by_contra expired
      rw [Bool.not_eq_false] at expired
      have read := (reads count stored (same ▸ not_ofGone_of_left wellFormed stays)).mpr
        ⟨entry, stays, expired, same.symm⟩
      obtain ⟨i, before, following, -, behind, -, hash⟩ := mem_followers.mp read
      have place := place_inj wellFormed here behind (by rw [← keyed behind, hash, same])
      omega
    · intro i entry following here behind counted
      obtain ⟨count, stored, same⟩ := List.mem_map.mp counted
      have stays := List.mem_of_getElem? behind
      have agrees := reads count stored (same ▸ not_ofGone_of_left wellFormed stays)
      rw [Bool.eq_iff_iff]
      constructor
      · intro expired
        obtain ⟨j, before, other, there, next, old, hash⟩ :=
          mem_followers.mp (agrees.mpr ⟨following, stays, expired, same.symm⟩)
        have place := place_inj wellFormed behind next (by rw [← keyed next, hash, same])
        obtain rfl : i = j := by omega
        rw [here] at there
        cases there
        exact old
      · intro old
        obtain ⟨dropped, left, expired, hash⟩ := agrees.mp
          (mem_followers.mpr ⟨i, entry, following, here, behind, old, by rw [keyed behind, same]⟩)
        obtain ⟨j, there⟩ := List.mem_iff_getElem?.mp left
        obtain rfl := place_inj wellFormed behind there (by rw [hash, same])
        rw [behind] at there
        cases there
        exact expired
  · intro agree count stored _
    have counted {entry : Uint256 × CMasternodeBroadcast} (same : entry.1 = count.1) :
        entry.1 ∈ caches.mapSeenSyncMNB.map Prod.fst := same ▸ List.mem_map_of_mem stored
    rw [mem_followers]
    constructor
    · rintro ⟨i, entry, following, here, behind, old, hash⟩
      rw [keyed behind] at hash
      refine ⟨following, List.mem_of_getElem? behind, ?_, hash⟩
      rw [agree.next i entry following here behind (counted hash), old]
    · rintro ⟨dropped, stays, expired, same⟩
      obtain ⟨i, here⟩ := List.mem_iff_getElem?.mp stays
      cases i with
      | zero =>
          rw [agree.first dropped here (counted same)] at expired
          cases expired
      | succ i =>
          obtain ⟨inside, -⟩ := List.getElem?_eq_some_iff.mp here
          have before := List.getElem?_eq_getElem (Nat.lt_of_succ_lt inside)
          refine ⟨i, _, dropped, before, here, ?_, by rw [keyed here, same]⟩
          rw [← agree.next i _ dropped before here (counted same), expired]

end MasternodeCaches

open MasternodeCaches in
/-- **The cleaning forgets exactly what it should** if and only if neighbours agree among the
announcements of the masternodes that are not removed. -/
theorem checkAndRemove_exact_iff (node : NodeContext) (hashes : MasternodeHashes)
    (forceExpiredRemoval : Bool) (caches : MasternodeCaches)
    (wellFormed : caches.WellFormed hashes) :
    caches.CleansExactly node hashes forceExpiredRemoval ↔
      NeighboursAgree node (caches.left node forceExpiredRemoval) caches.mapSeenSyncMNB := by
  by_cases last : ∀ entry, (caches.left node forceExpiredRemoval).getLast? = some entry →
      isExpired node entry.2.lastPing.sigTime = false
  · rw [← readsDropped_iff wellFormed last]
    obtain ⟨after, done, kept, seen, stays, sync, stays_iff⟩ :=
      @checkAndRemove_of_last node hashes forceExpiredRemoval caches last
    have agree_iff (entry : Uint256 × Int) :
        (stays entry = !decide (caches.OfDropped node hashes forceExpiredRemoval entry.1)) ↔
          (¬ caches.OfGone node forceExpiredRemoval entry.1 →
            (entry.1 ∈ followers node hashes (caches.left node forceExpiredRemoval) ↔
              ∃ dropped ∈ caches.left node forceExpiredRemoval,
                isExpired node dropped.2.lastPing.sigTime = true ∧ dropped.1 = entry.1)) := by
      rw [Bool.eq_iff_iff, stays_iff, Bool.not_eq_true', decide_eq_false_iff_not,
        ofDropped_iff wellFormed, not_or]
      exact and_congr_right_iff.trans (imp_congr_right fun _ => not_iff_not)
    constructor
    · rintro ⟨result, found, -, -, exact⟩ entry stored
      rw [done] at found
      cases found
      rw [sync] at exact
      have same := congrArg (entry ∈ ·) exact
      simp only [List.mem_filter, stored, true_and] at same
      rw [← agree_iff, Bool.eq_iff_iff]
      exact iff_of_eq same
    · intro reads
      refine ⟨after, done, kept, seen.trans (filter_left wellFormed), sync.trans ?_⟩
      apply List.filter_congr
      intro entry stored
      exact (agree_iff entry).mpr (reads entry stored)
  · refine iff_of_false ?_ fun agree => last agree.last
    push Not at last
    obtain ⟨entry, found, expired⟩ := last
    rintro ⟨after, done, -⟩
    rw [checkAndRemove_of_not_last found (Bool.not_eq_false _ ▸ expired)] at done
    cases done

/-- Hashes that tell the announcements of the examples apart. -/
def timeHashes : MasternodeHashes where
  broadcast sigTime _ := BitVec.ofInt 256 sigTime
  ping _ sigTime := BitVec.ofInt 256 sigTime

/-- An announcement of a masternode, with the time of its last ping. -/
def announcementOf (index : Nat) (sigTime pinged : Int) : CMasternodeBroadcast :=
  { vin := { prevout := ⟨BitVec.ofNat 256 (1000 + index), 0⟩ }, addr := ⟨[], 0⟩
    pubKeyCollateralAddress := [UInt8.ofNat index], pubKeyMasternode := [UInt8.ofNat index, 1]
    sig := [], sigTime, protocolVersion := 70720
    lastPing := { blockHash := 1, sigTime := pinged } }

/-- A masternode that is removed and two that stay, with their announcements. -/
def spentAndEnabled : MasternodeCaches where
  vMasternodes := [{ CMasternode.enabledNode 1 (5000 * COIN) with activeState := .vinSpent },
    CMasternode.enabledNode 2 (5000 * COIN), CMasternode.enabledNode 3 (5000 * COIN)]
  mapSeenMasternodeBroadcast :=
    [(5, announcementOf 1 5 1600000000), (6, announcementOf 2 6 1600000000),
      (7, announcementOf 3 7 1600000000)]
  mapSeenSyncMNB := [(5, 1), (6, 1), (7, 2)]

theorem checkAndRemove_exact_spentAndEnabled :
    spentAndEnabled.WellFormed timeHashes ∧
      spentAndEnabled.CleansExactly (NodeContext.mainNode 400000) timeHashes false := by
  have wellFormed : spentAndEnabled.WellFormed timeHashes :=
    ⟨by decide, by decide, by decide⟩
  refine ⟨wellFormed, (checkAndRemove_exact_iff (NodeContext.mainNode 400000) timeHashes false
    spentAndEnabled wellFormed).mpr ?_⟩
  have left : spentAndEnabled.left (NodeContext.mainNode 400000) false =
      [(6, announcementOf 2 6 1600000000), (7, announcementOf 3 7 1600000000)] := by decide
  rw [left]
  refine ⟨?_, ?_, ?_⟩
  · rintro entry found
    cases found
    decide
  · rintro entry found -
    cases found
    decide
  · rintro i entry following here behind -
    cases i with
    | zero =>
        cases here
        cases behind
        decide
    | succ i =>
        cases i with
        | zero => cases behind
        | succ i => cases behind

/-- Two announcements, of which the first is old: the count of the second is forgotten. -/
def oldAndFresh : MasternodeCaches where
  vMasternodes := []
  mapSeenMasternodeBroadcast := [(5, announcementOf 1 5 5), (6, announcementOf 2 6 1600000000)]
  mapSeenSyncMNB := [(5, 1), (6, 1)]

/-- A single old announcement: the end of the map is read. -/
def onlyOld : MasternodeCaches where
  vMasternodes := []
  mapSeenMasternodeBroadcast := [(5, announcementOf 1 5 5)]

theorem not_checkAndRemove_exact :
    (¬ ∀ (node : NodeContext) (hashes : MasternodeHashes) (forceExpiredRemoval : Bool)
      (caches : MasternodeCaches), caches.WellFormed hashes →
        caches.CleansExactly node hashes forceExpiredRemoval) ∧
    onlyOld.checkAndRemove (NodeContext.mainNode 400000) timeHashes false = none ∧
    (oldAndFresh.checkAndRemove (NodeContext.mainNode 400000) timeHashes false).map
      MasternodeCaches.mapSeenSyncMNB = some [(5, 1)] := by
  have behindEnd :
      onlyOld.checkAndRemove (NodeContext.mainNode 400000) timeHashes false = none := by
    decide
  refine ⟨?_, behindEnd, by decide⟩
  intro always
  obtain ⟨after, done, -⟩ := always (NodeContext.mainNode 400000) timeHashes false onlyOld
    ⟨by decide, by decide, by decide⟩
  rw [behindEnd] at done
  cases done

end GiantCore
