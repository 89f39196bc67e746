import GiantCore.Network.AddrTables

/-! # The address manager stays consistent

The invariant of the manager joins those of its tables, its index and its counters. Between the
steps of one operation an entry may be pending: it has no place yet.
-/

namespace GiantCore.CAddrMan

open GiantCore.Foundation.Counting

/-- What the tables know of the entry. -/
def standingOf (info : CAddrInfo) : Standing :=
  ⟨info.addr.service, info.fInTried, info.nRefCount⟩

/-- What the index knows of the entry. -/
def whereaboutsOf (info : CAddrInfo) : Whereabouts := ⟨info.addr.service.ip, info.nRandomPos⟩

/-- An entry without its place in the random order. -/
def unplaced (info : CAddrInfo) : CAddrInfo := { info with nRandomPos := 0 }

variable {ctx : AddrContext} {man : CAddrMan} {pending due : Nat → Prop} {extra : Int}

def standing (man : CAddrMan) (n : Nat) : Option Standing := (man.mapInfo n).map standingOf

def whereabouts (man : CAddrMan) (n : Nat) : Option Whereabouts :=
  (man.mapInfo n).map whereaboutsOf

/-- The entries but for their places in the random order. -/
def core (man : CAddrMan) (n : Nat) : Option CAddrInfo := (man.mapInfo n).map unplaced

/-- An entry that has no place is pending, and none has too many. -/
def Settled (pending : Nat → Prop) (standing : Nat → Option Standing) : Prop :=
  ∀ n entry, standing n = some entry → entry.nRefCount ≤ newBucketsPerAddress ∧
    (entry.fInTried = false → ¬ pending n → 0 < entry.nRefCount)

/-- The times of the entries; one that is due to be tried had its success. -/
def Times (due : Nat → Prop) (entries : Nat → Option CAddrInfo) : Prop :=
  ∀ n info, entries n = some info → (info.fInTried = true ∨ due n → 0 < info.nLastSuccess) ∧
    0 ≤ info.nLastSuccess ∧ 0 ≤ info.nLastTry

/-- The invariant: `extra` entries are not in the counter of the new ones. -/
structure Consistent (ctx : AddrContext) (pending due : Nat → Prop) (extra : Int) (man : CAddrMan) :
    Prop where
  index : Index man.nIdCount man.whereabouts man.mapAddr man.vRandom
  tables : Tables ctx man.nKey man.standing man.vvNew man.vvTried
  settled : Settled pending man.standing
  times : Times due man.core
  counts : Counts man.nIdCount man.standing man.vRandom.length man.nTried (man.nNew + extra)

/-- Consistency is about the views of the entries. -/
theorem Consistent.of_views {places : Nat → Option Whereabouts} {standings : Nat → Option Standing}
    {cores : Nat → Option CAddrInfo} (place : man.whereabouts = places)
    (stand : man.standing = standings) (inside : man.core = cores)
    (index : Index man.nIdCount places man.mapAddr man.vRandom)
    (tables : Tables ctx man.nKey standings man.vvNew man.vvTried)
    (settled : Settled pending standings) (times : Times due cores)
    (counts : Counts man.nIdCount standings man.vRandom.length man.nTried (man.nNew + extra)) :
    Consistent ctx pending due extra man := by
  subst place stand inside
  exact ⟨index, tables, settled, times, counts⟩

/-! ## Changes of one entry -/

/-- A view of an updated map is the updated view. -/
theorem map_update {γ : Type} (entries : Nat → Option CAddrInfo) (n : Nat)
    (value : Option CAddrInfo) (view : CAddrInfo → γ) :
    (fun m => (Function.update entries n value m).map view) =
      Function.update (fun m => (entries m).map view) n (value.map view) := by
  funext m
  simp only [Function.update_apply]
  split <;> rfl

/-- The entry that is changed. -/
theorem modify_mapInfo_self (man : CAddrMan) (n : Nat) (change : CAddrInfo → CAddrInfo) :
    (man.modify n change).mapInfo n = (man.mapInfo n).map change := Function.update_self ..

/-- The other entries stay. -/
theorem modify_mapInfo_of_ne {n m : Nat} (change : CAddrInfo → CAddrInfo) (apart : m ≠ n) :
    (man.modify n change).mapInfo m = man.mapInfo m := Function.update_of_ne apart ..

/-- A change of an entry, seen through a view. -/
theorem view_modify {γ : Type} (man : CAddrMan) {n : Nat} {info : CAddrInfo}
    (present : man.mapInfo n = some info) (change : CAddrInfo → CAddrInfo) (view : CAddrInfo → γ) :
    (fun m => ((man.modify n change).mapInfo m).map view) =
      Function.update (fun m => (man.mapInfo m).map view) n (some (view (change info))) := by
  unfold modify
  simp only
  rw [map_update, present]
  rfl

/-- A change that a view does not see. -/
theorem view_modify_of_keeps {γ : Type} (man : CAddrMan) (n : Nat) (change : CAddrInfo → CAddrInfo)
    (view : CAddrInfo → γ) (keeps : ∀ info, view (change info) = view info) :
    (fun m => ((man.modify n change).mapInfo m).map view) = fun m => (man.mapInfo m).map view := by
  unfold modify
  simp only
  rw [map_update, Option.map_map]
  have same : (man.mapInfo n).map (view ∘ change) = (man.mapInfo n).map view := by
    congr 1
    exact funext keeps
  rw [same]
  exact Function.update_eq_self n fun m => (man.mapInfo m).map view

/-- The standing of an entry. -/
theorem standing_of_mapInfo {n : Nat} {info : CAddrInfo} (present : man.mapInfo n = some info) :
    man.standing n = some (standingOf info) := by
  unfold standing
  rw [present]
  rfl

/-- The whereabouts of an entry. -/
theorem whereabouts_of_mapInfo {n : Nat} {info : CAddrInfo} (present : man.mapInfo n = some info) :
    man.whereabouts n = some (whereaboutsOf info) := by
  unfold whereabouts
  rw [present]
  rfl

/-- Without an entry there is no standing. -/
theorem standing_eq_none {n : Nat} (absent : man.core n = none) : man.standing n = none := by
  unfold core at absent
  unfold standing
  rw [Option.map_eq_none_iff] at absent ⊢
  exact absent

/-- What has a standing is an entry. -/
theorem mapInfo_of_standing {n : Nat} (known : man.standing n ≠ none) :
    ∃ info, man.mapInfo n = some info := by
  unfold standing at known
  exact Option.ne_none_iff_exists'.mp fun absent => known (by rw [absent]; rfl)

/-- What has whereabouts is an entry. -/
theorem mapInfo_of_whereabouts {n : Nat} (known : man.whereabouts n ≠ none) :
    ∃ info, man.mapInfo n = some info := by
  unfold whereabouts at known
  exact Option.ne_none_iff_exists'.mp fun absent => known (by rw [absent]; rfl)

/-- Identifiers are below the next one. -/
theorem Consistent.below (consistent : Consistent ctx pending due extra man) {n : Nat}
    {info : CAddrInfo} (present : man.mapInfo n = some info) : n < man.nIdCount := by
  by_contra above
  have absent := consistent.index.fresh n (by omega)
  rw [whereabouts_of_mapInfo present] at absent
  cases absent

/-! ## The random order -/

/-- The standing does not depend on the place in the random order. -/
theorem standing_of_core {infos infos' : Nat → Option CAddrInfo}
    (same : (fun n => (infos' n).map unplaced) = fun n => (infos n).map unplaced) :
    (fun n => (infos' n).map standingOf) = fun n => (infos n).map standingOf := by
  funext n
  have here : (infos' n).map unplaced = (infos n).map unplaced := congrFun same n
  have view : standingOf = standingOf ∘ unplaced := rfl
  rw [view, ← Option.map_map, ← Option.map_map, here]

/-- Another random order is consistent too. -/
theorem Consistent.reorder (consistent : Consistent ctx pending due extra man)
    {infos : Nat → Option CAddrInfo} {random : List Nat}
    (index : Index man.nIdCount (fun n => (infos n).map whereaboutsOf) man.mapAddr random)
    (cores : (fun n => (infos n).map unplaced) = man.core)
    (length : random.length = man.vRandom.length) :
    Consistent ctx pending due extra { man with mapInfo := infos, vRandom := random } := by
  have standings : standing { man with mapInfo := infos, vRandom := random } = man.standing :=
    standing_of_core cores
  refine ⟨index, ?_, ?_, ?_, ?_⟩
  · rw [standings]
    exact consistent.tables
  · rw [standings]
    exact consistent.settled
  · have times := consistent.times
    rw [← cores] at times
    exact times
  · rw [standings, length]
    exact consistent.counts

/-- Swapping two entries of the random order is defined, and it keeps consistency. -/
theorem swapRandom_spec (consistent : Consistent ctx pending due extra man) {k1 k2 : Nat}
    (below1 : k1 < man.vRandom.length) (below2 : k2 < man.vRandom.length) :
    ∃ infos random, man.swapRandom k1 k2 =
        some { man with mapInfo := infos, vRandom := random } ∧
      Consistent ctx pending due extra { man with mapInfo := infos, vRandom := random } ∧
      (fun n => (infos n).map unplaced) = man.core ∧ random.length = man.vRandom.length ∧
      random[k2]? = man.vRandom[k1]? := by
  unfold swapRandom
  split_ifs with same
  · subst same
    exact ⟨man.mapInfo, man.vRandom, rfl, consistent, rfl, rfl, rfl⟩
  · have at1 : man.vRandom[k1]? = some man.vRandom[k1] := List.getElem?_eq_getElem below1
    have at2 : man.vRandom[k2]? = some man.vRandom[k2] := List.getElem?_eq_getElem below2
    generalize man.vRandom[k1] = n1 at at1
    generalize man.vRandom[k2] = n2 at at2
    obtain ⟨info1, present1⟩ := mapInfo_of_whereabouts (consistent.index.random k1 n1 at1)
    obtain ⟨info2, present2⟩ := mapInfo_of_whereabouts (consistent.index.random k2 n2 at2)
    have different : n1 ≠ n2 := by
      rintro rfl
      have pos1 := consistent.index.randomPos k1 n1 _ at1 (whereabouts_of_mapInfo present1)
      have pos2 := consistent.index.randomPos k2 n1 _ at2 (whereabouts_of_mapInfo present1)
      omega
    have still2 : (man.modify n1 fun info => { info with nRandomPos := k2 }).mapInfo n2 =
        some info2 := by
      rw [modify_mapInfo_of_ne _ different.symm]
      exact present2
    have places := view_modify (man.modify n1 fun info => { info with nRandomPos := k2 })
      still2 (fun info => { info with nRandomPos := k1 }) whereaboutsOf
    rw [view_modify man present1] at places
    have cores := view_modify_of_keeps (man.modify n1 fun info => { info with nRandomPos := k2 })
      n2 (fun info => { info with nRandomPos := k1 }) unplaced fun _ => rfl
    replace cores := cores.trans (view_modify_of_keeps man n1
      (fun info => { info with nRandomPos := k2 }) unplaced fun _ => rfl)
    refine ⟨((man.modify n1 fun info => { info with nRandomPos := k2 }).modify n2
        fun info => { info with nRandomPos := k1 }).mapInfo, (man.vRandom.set k1 n2).set k2 n1, ?_,
      ?_, cores, by simp, ?_⟩
    · rw [at1, at2]
      simp [present1, present2, guard, modify]
    · refine consistent.reorder ?_ cores (by simp)
      rw [places]
      exact consistent.index.swap same at1 at2 (whereabouts_of_mapInfo present1)
        (whereabouts_of_mapInfo present2)
    · grind

/-! ## Changes of one entry and its places -/

/-- One entry may change, if it has a place or waits for one. -/
theorem Settled.update {entries : Nat → Option Standing} (settled : Settled pending entries)
    {n : Nat} {entry : Standing} {pending' : Nat → Prop}
    (grows : ∀ m, m ≠ n → pending m → pending' m)
    (few : entry.nRefCount ≤ newBucketsPerAddress)
    (placed : entry.fInTried = false → ¬ pending' n → 0 < entry.nRefCount) :
    Settled pending' (Function.update entries n (some entry)) := by
  intro m other there
  have before := settled m
  have more := grows m
  simp only [Function.update_apply] at there
  split_ifs at there with same
  · subst same
    cases there
    exact ⟨few, placed⟩
  · exact ⟨(before other there).1, fun isNew settles =>
      (before other there).2 isNew fun waits => settles (more same waits)⟩

/-- One entry may change, if its times are in order. -/
theorem Times.update {entries : Nat → Option CAddrInfo} (times : Times due entries) {n : Nat}
    {info : CAddrInfo} {due' : Nat → Prop} (shrinks : ∀ m, m ≠ n → due' m → due m)
    (tried : info.fInTried = true ∨ due' n → 0 < info.nLastSuccess)
    (success : 0 ≤ info.nLastSuccess) (attempt : 0 ≤ info.nLastTry) :
    Times due' (Function.update entries n (some info)) := by
  intro m other there
  have before := times m
  have fewer := shrinks m
  simp only [Function.update_apply] at there
  split_ifs at there with same
  · subst same
    cases there
    exact ⟨tried, success, attempt⟩
  · obtain ⟨was, rest⟩ := before other there
    exact ⟨fun either => was (either.imp_right (fewer same)), rest⟩

/-- An entry may go. -/
theorem Settled.remove {entries : Nat → Option Standing} (settled : Settled pending entries)
    (n : Nat) : Settled pending (Function.update entries n none) := by
  intro m other there
  simp only [Function.update_apply] at there
  split_ifs at there
  exact settled m other there

/-- An entry may go, as to the times. -/
theorem Times.remove {entries : Nat → Option CAddrInfo} (times : Times due entries) (n : Nat) :
    Times due (Function.update entries n none) := by
  intro m other there
  simp only [Function.update_apply] at there
  split_ifs at there
  exact times m other there

/-- What is settled is not pending. -/
theorem Consistent.settle (consistent : Consistent ctx pending due extra man)
    {pending' : Nat → Prop} (done : ∀ n entry, man.standing n = some entry → pending n →
      pending' n ∨ entry.fInTried = true ∨ 0 < entry.nRefCount) :
    Consistent ctx pending' due extra man := by
  refine { consistent with settled := ?_ }
  intro n entry there
  obtain ⟨few, placed⟩ := consistent.settled n entry there
  refine ⟨few, fun isNew settles => ?_⟩
  by_cases waits : pending n
  · rcases done n entry there waits with still | tried | enough
    · exact absurd still settles
    · rw [isNew] at tried
      cases tried
    · exact enough
  · exact placed isNew waits

/-- One entry and the tables may change together. -/
theorem Consistent.change (consistent : Consistent ctx pending due extra man) {n : Nat}
    {info : CAddrInfo} (present : man.mapInfo n = some info) (change : CAddrInfo → CAddrInfo)
    {pending' due' : Nat → Prop} {extra' nTried' nNew' : Int} {vvNew' : NewSlot → Option Nat}
    {vvTried' : TriedSlot → Option Nat}
    (stays : whereaboutsOf (change info) = whereaboutsOf info)
    (tables : Tables ctx man.nKey
      (Function.update man.standing n (some (standingOf (change info)))) vvNew' vvTried')
    (settled : Settled pending' (Function.update man.standing n (some (standingOf (change info)))))
    (times : Times due' (Function.update man.core n (some (unplaced (change info)))))
    (counts : Counts man.nIdCount
      (Function.update man.standing n (some (standingOf (change info)))) man.vRandom.length nTried'
      (nNew' + extra')) :
    Consistent ctx pending' due' extra' { man.modify n change with
      vvNew := vvNew', vvTried := vvTried', nTried := nTried', nNew := nNew' } := by
  have standings := view_modify man present change standingOf
  have places := view_modify man present change whereaboutsOf
  have cores := view_modify man present change unplaced
  have same : Function.update man.whereabouts n (some (whereaboutsOf (change info))) =
      man.whereabouts := by
    rw [stays, ← whereabouts_of_mapInfo present]
    exact Function.update_eq_self n man.whereabouts
  exact .of_views (places.trans same) standings cores consistent.index tables settled times counts

/-- Changes of an entry that neither the tables nor the index see. -/
theorem Consistent.note (consistent : Consistent ctx pending due extra man) {n : Nat}
    {info : CAddrInfo} (present : man.mapInfo n = some info) (change : CAddrInfo → CAddrInfo)
    {due' : Nat → Prop} (keeps : standingOf (change info) = standingOf info)
    (stays : whereaboutsOf (change info) = whereaboutsOf info)
    (shrinks : ∀ m, m ≠ n → due' m → due m)
    (tried : info.fInTried = true ∨ due' n → 0 < (change info).nLastSuccess)
    (success : 0 ≤ (change info).nLastSuccess) (attempt : 0 ≤ (change info).nLastTry) :
    Consistent ctx pending due' extra (man.modify n change) := by
  have same : Function.update man.standing n (some (standingOf (change info))) = man.standing := by
    rw [keeps, ← standing_of_mapInfo present]
    exact Function.update_eq_self n man.standing
  have still_tried : (change info).fInTried = info.fInTried := congrArg Standing.fInTried keeps
  refine consistent.change present change stays ?_ ?_
    (consistent.times.update shrinks (fun either => tried ?_) success attempt) ?_
  · rw [same]
    exact consistent.tables
  · rw [same]
    exact consistent.settled
  · exact either.imp_left still_tried.symm.trans
  · rw [same]
    exact consistent.counts

/-! ## The operations -/

/-- An entry without a place is removed. -/
theorem delete_spec (consistent : Consistent ctx pending due extra man) {nId : Nat}
    {info : CAddrInfo} (present : man.mapInfo nId = some info) (isNew : info.fInTried = false)
    (none_left : info.nRefCount = 0) :
    ∃ man', man.delete nId = some man' ∧ Consistent ctx pending due extra man' ∧
      man'.nKey = man.nKey ∧ man'.vvNew = man.vvNew ∧ man'.vvTried = man.vvTried ∧
      man'.core = Function.update man.core nId none := by
  obtain ⟨nonneg, at_pos⟩ := consistent.index.pos nId _ (whereabouts_of_mapInfo present)
  have below : info.nRandomPos.toNat < man.vRandom.length :=
    (List.getElem?_eq_some_iff.mp at_pos).1
  obtain ⟨infos, random, swapped, still, cores, length, last⟩ :=
    swapRandom_spec consistent below (by omega : man.vRandom.length - 1 < man.vRandom.length)
  have last_here : random[random.length - 1]? = some nId := by
    rw [length, last]
    exact at_pos
  have entry_here : (infos nId).map unplaced = some (unplaced info) := by
    have here := congrFun cores nId
    unfold core at here
    rw [present] at here
    exact here
  obtain ⟨moved, moved_here, moved_eq⟩ := Option.map_eq_some_iff.mp entry_here
  have same : moved.addr = info.addr ∧ moved.fInTried = info.fInTried ∧
      moved.nRefCount = info.nRefCount := by
    simp only [unplaced, CAddrInfo.mk.injEq] at moved_eq
    tauto
  have moved_left : (standingOf moved).nRefCount = 0 := same.2.2.trans none_left
  refine ⟨{ man with
    vRandom := random.dropLast
    mapAddr := Function.update man.mapAddr info.addr.service.ip none
    mapInfo := Function.update infos nId none
    nNew := man.nNew - 1 }, ?_, ?_, rfl, rfl, rfl, ?_⟩
  · unfold delete
    rw [present]
    simp [isNew, none_left, swapped, guard]
  · have index := still.index.drop last_here (whereabouts_of_mapInfo moved_here)
    have tables := still.tables.remove (standing_of_mapInfo moved_here) (same.2.1.trans isNew)
      moved_left
    refine .of_views (map_update infos nId none whereaboutsOf)
      (map_update infos nId none standingOf) (map_update infos nId none unplaced) ?_ tables ?_ ?_ ?_
    · simp only [whereaboutsOf, same.1] at index
      exact index
    · exact still.settled.remove nId
    · exact still.times.remove nId
    · refine still.counts.update (still.below moved_here) ?_ ?_ ?_
      all_goals
        rw [standing_of_mapInfo moved_here]
        simp [standingOf, same.2.1, isNew, one]
      · omega
      · omega
  · rw [← cores]
    exact map_update infos nId none unplaced

/-- Clearing a slot of the new table is defined, and it keeps consistency. -/
theorem clearNew_spec (consistent : Consistent ctx pending due extra man) (slot : NewSlot) :
    ∃ man', man.clearNew slot = some man' ∧ Consistent ctx pending due extra man' ∧
      man'.nKey = man.nKey ∧ man'.vvNew = Function.update man.vvNew slot none ∧
      man'.vvTried = man.vvTried ∧
      ∀ n, man.vvNew slot ≠ some n → man'.core n = man.core n := by
  unfold clearNew
  split
  case h_1 free =>
    refine ⟨man, rfl, consistent, rfl, ?_, rfl, fun _ _ => rfl⟩
    rw [← free]
    exact (Function.update_eq_self slot man.vvNew).symm
  case h_2 nIdDelete here =>
    obtain ⟨info, present⟩ := mapInfo_of_standing (consistent.tables.known slot nIdDelete here)
    have stands := standing_of_mapInfo present
    obtain ⟨isNew, _⟩ := consistent.tables.new slot nIdDelete _ here stands
    have count := consistent.tables.refs nIdDelete _ stands
    have positive := (refs_pos_iff man.vvNew nIdDelete).mpr ⟨slot, here⟩
    have enough : info.nRefCount > 0 := by
      have same : (standingOf info).nRefCount = info.nRefCount := rfl
      omega
    have settled := consistent.settled nIdDelete _ stands
    have times := consistent.times nIdDelete (unplaced info) (by unfold core; rw [present]; rfl)
    let man1 := (man.modify nIdDelete fun info =>
      { info with nRefCount := info.nRefCount - 1 }).setNew slot none
    have changed : Consistent ctx (fun n => pending n ∨ n = nIdDelete) due extra man1 :=
      consistent.change present (fun info => { info with nRefCount := info.nRefCount - 1 }) rfl
      (consistent.tables.clear here stands)
      (consistent.settled.update
        (fun _ _ => Or.inl) (by have := settled.1; simp only [standingOf] at *; omega)
        (fun _ not_pending => absurd (Or.inr rfl) not_pending))
      (consistent.times.update (fun _ _ => id) times.1 times.2.1 times.2.2)
      (consistent.counts.keep (consistent.below present) stands rfl)
    have present1 : man1.mapInfo nIdDelete =
        some { info with nRefCount := info.nRefCount - 1 } := by
      show (man.modify nIdDelete _).mapInfo nIdDelete = _
      rw [modify_mapInfo_self, present]
      rfl
    have others : ∀ n, man.vvNew slot ≠ some n → man1.core n = man.core n := by
      intro n apart
      have different : n ≠ nIdDelete := by
        rintro rfl
        exact apart here
      exact congrArg (Option.map unplaced) (modify_mapInfo_of_ne _ different)
    rw [present]
    simp only [Option.bind_eq_bind, Option.bind_some, guard, enough, if_true]
    by_cases last : info.nRefCount - 1 = 0
    · obtain ⟨man', deleted, still, key, new, tried, cores⟩ :=
        delete_spec changed present1 isNew last
      refine ⟨man', ?_, still.settle ?_, key, new, tried, ?_⟩
      · rw [if_pos last]
        exact deleted
      · rintro n entry there (waits | rfl)
        · exact .inl waits
        · have gone : man'.core n = none := by rw [cores, Function.update_self]
          rw [standing_eq_none gone] at there
          cases there
      · intro n apart
        have different : n ≠ nIdDelete := by
          rintro rfl
          exact apart here
        rw [cores, Function.update_of_ne different]
        exact others n apart
    · refine ⟨man1, ?_, changed.settle ?_, rfl, rfl, rfl, others⟩
      · rw [if_neg last]
        rfl
      · rintro n entry there (waits | rfl)
        · exact .inl waits
        · rw [standing_of_mapInfo present1] at there
          cases there
          right
          right
          simp only [standingOf]
          omega

/-- No entry is pending. -/
def nobody (_ : Nat) : Prop := False

/-- An entry with the same core is the same up to its place. -/
theorem mapInfo_of_core {man' : CAddrMan} {n : Nat} {info : CAddrInfo}
    (same : man'.core n = man.core n) (present : man.mapInfo n = some info) :
    ∃ info', man'.mapInfo n = some info' ∧ unplaced info' = unplaced info := by
  unfold core at same
  rw [present] at same
  exact Option.map_eq_some_iff.mp same

/-- Entries that differ in their place have the same standing. -/
theorem standingOf_eq {info info' : CAddrInfo} (same : unplaced info' = unplaced info) :
    standingOf info' = standingOf info := by
  show standingOf (unplaced info') = standingOf (unplaced info)
  rw [same]

/-- The times of an entry are in order. -/
theorem Consistent.times_of (consistent : Consistent ctx pending due extra man) {n : Nat}
    {info : CAddrInfo} (present : man.mapInfo n = some info) :
    (info.fInTried = true ∨ due n → 0 < info.nLastSuccess) ∧ 0 ≤ info.nLastSuccess ∧
      0 ≤ info.nLastTry :=
  consistent.times n (unplaced info) (by unfold core; rw [present]; rfl)

/-- The references of an entry are counted. -/
theorem Consistent.refs_of (consistent : Consistent ctx pending due extra man) {n : Nat}
    {info : CAddrInfo} (present : man.mapInfo n = some info) :
    info.nRefCount = refs man.vvNew n :=
  consistent.tables.refs n _ (standing_of_mapInfo present)

/-- Whether a slot may be taken is defined. -/
theorem mayInsert_spec (consistent : Consistent ctx pending due extra man) (info : CAddrInfo)
    (slot : NewSlot) (nowTerrible : Int) :
    ∃ fInsert, man.mayInsert info slot nowTerrible = some fInsert := by
  unfold mayInsert
  split
  case h_1 => exact ⟨true, rfl⟩
  case h_2 nIdExisting there =>
    obtain ⟨existing, existing_here⟩ :=
      mapInfo_of_standing (consistent.tables.known slot nIdExisting there)
    rw [existing_here]
    exact ⟨_, rfl⟩

/-- An entry with room gets its slot. -/
theorem place_spec {nId : Nat} {info : CAddrInfo} (source : List UInt8) (nowTerrible : Int)
    (consistent : Consistent ctx (· = nId) nobody 0 man) (present : man.mapInfo nId = some info)
    (isNew : info.fInTried = false) (room : info.nRefCount < newBucketsPerAddress) :
    ∃ man', man.place ctx nId source nowTerrible = some man' ∧
      Consistent ctx nobody nobody 0 man' ∧ man'.nKey = man.nKey := by
  have count := consistent.refs_of present
  have settle_placed : info.nRefCount ≠ 0 → Consistent ctx nobody nobody 0 man := by
    intro some_left
    refine consistent.settle ?_
    rintro n entry there rfl
    rw [standing_of_mapInfo present] at there
    cases there
    right
    right
    simp only [standingOf]
    omega
  unfold place
  rw [present]
  simp only [Option.bind_eq_bind, Option.bind_some]
  set slot := ctx.newSlot man.nKey info.addr.service
    (ctx.getNewBucket man.nKey info.addr.service source) with slot_eq
  by_cases already : man.vvNew slot = some nId
  · rw [if_pos already]
    refine ⟨man, rfl, settle_placed ?_, rfl⟩
    have positive := (refs_pos_iff man.vvNew nId).mpr ⟨slot, already⟩
    omega
  · obtain ⟨fInsert, decided⟩ := mayInsert_spec consistent info slot nowTerrible
    rw [if_neg already, decided, Option.bind_some]
    split_ifs with inserts last
    · obtain ⟨man2, cleared, still, key, new, tried, cores⟩ := clearNew_spec consistent slot
      obtain ⟨info2, present2, same⟩ := mapInfo_of_core (cores nId already) present
      have stand := standingOf_eq same
      have free : man2.vvNew slot = none := by rw [new, Function.update_self]
      have times := still.times_of present2
      refine ⟨(man2.modify nId fun info =>
        { info with nRefCount := info.nRefCount + 1 }).setNew slot (some nId), ?_, ?_, ?_⟩
      · rw [cleared]
        rfl
      · have service : (standingOf info2).service = info.addr.service := by rw [stand]; rfl
        have count2 : info2.nRefCount = info.nRefCount := congrArg Standing.nRefCount stand
        refine still.change present2 (fun info => { info with nRefCount := info.nRefCount + 1 }) rfl
          (still.tables.occupy free (standing_of_mapInfo present2) (by rw [stand]; exact isNew) ?_)
          (still.settled.update ?_ ?_ ?_)
          (still.times.update (fun _ _ => id) times.1 times.2.1 times.2.2)
          (still.counts.keep (still.below present2) (standing_of_mapInfo present2) rfl)
        · rw [service, key]
          exact slot_eq
        · intro m apart here
          exact absurd here apart
        · simp only [standingOf, count2]
          omega
        · intro _ _
          simp only [standingOf, count2]
          omega
      · exact key
    · obtain ⟨man', deleted, still, key, _, _, cores⟩ := delete_spec consistent present isNew last
      refine ⟨man', deleted, still.settle ?_, key⟩
      rintro n entry there rfl
      have gone : man'.core n = none := by rw [cores, Function.update_self]
      rw [standing_eq_none gone] at there
      cases there
    · exact ⟨man, rfl, settle_placed last, rfl⟩

/-- A place of the tried table is free after its entry moved back. -/
theorem evict_spec {nId : Nat} {info : CAddrInfo}
    (consistent : Consistent ctx (· = nId) (· = nId) 1 man) (present : man.mapInfo nId = some info)
    (isNew : info.fInTried = false) (none_left : info.nRefCount = 0) (slot : TriedSlot) :
    ∃ man', man.evict ctx slot = some man' ∧ Consistent ctx (· = nId) (· = nId) 1 man' ∧
      man'.nKey = man.nKey ∧ man'.vvTried slot = none ∧ man'.core nId = man.core nId := by
  unfold evict
  split
  case h_1 free => exact ⟨man, rfl, consistent, rfl, free, rfl⟩
  case h_2 nIdEvict here =>
    obtain ⟨infoOld, presentOld⟩ :=
      mapInfo_of_standing (consistent.tables.triedKnown slot nIdEvict here)
    have stands := standing_of_mapInfo presentOld
    obtain ⟨was_tried, _⟩ := consistent.tables.tried slot nIdEvict _ here stands
    replace was_tried : infoOld.fInTried = true := was_tried
    have different : nId ≠ nIdEvict := by
      rintro rfl
      rw [present] at presentOld
      cases presentOld
      rw [isNew] at was_tried
      cases was_tried
    have times := consistent.times_of presentOld
    have nowhere : ∀ new, man.vvNew new ≠ some nIdEvict := by
      intro new there
      have := (consistent.tables.new new nIdEvict _ there stands).1
      rw [show (standingOf infoOld).fInTried = true from was_tried] at this
      cases this
    have old_left : infoOld.nRefCount = 0 := by
      have count := consistent.refs_of presentOld
      have none_there := (refs_pos_iff man.vvNew nIdEvict).not.mpr fun ⟨new, there⟩ =>
        nowhere new there
      omega
    have few := (consistent.settled nIdEvict _ stands).1
    let man1 : CAddrMan := { (man.modify nIdEvict fun info =>
      { info with fInTried := false }).setTried slot none with nTried := man.nTried - 1 }
    have changed : Consistent ctx (fun n => n = nId ∨ n = nIdEvict) (· = nId) 2 man1 := by
      refine consistent.change presentOld (fun info => { info with fInTried := false }) rfl
        (consistent.tables.demote here stands)
        (consistent.settled.update (fun _ _ => Or.inl) few
          (fun _ not_pending => absurd (Or.inr rfl) not_pending))
        (consistent.times.update (fun _ _ => id) ?_ times.2.1 times.2.2)
        (consistent.counts.update (consistent.below presentOld) ?_ ?_ ?_)
      · rintro (tried | due)
        · cases tried
        · exact absurd due.symm different
      all_goals
        rw [stands]
        simp [standingOf, was_tried, one, modify, setTried]
      omega
    have present1 : man1.mapInfo nId = some info := by
      have kept : man1.mapInfo nId = man.mapInfo nId := modify_mapInfo_of_ne _ different
      rw [kept, present]
    have presentOld1 : man1.mapInfo nIdEvict = some { infoOld with fInTried := false } := by
      show (man.modify nIdEvict _).mapInfo nIdEvict = _
      rw [modify_mapInfo_self, presentOld]
      rfl
    set new := ctx.newSlot man.nKey infoOld.addr.service
      (ctx.getNewBucket man.nKey infoOld.addr.service infoOld.source) with new_eq
    obtain ⟨man2, cleared, still, key, news, tried, cores⟩ := clearNew_spec changed new
    have not_here : man1.vvNew new ≠ some nId :=
      changed.tables.notMem_of_refs (standing_of_mapInfo present1) none_left new
    obtain ⟨info2, present2, same⟩ := mapInfo_of_core (cores nIdEvict (nowhere new)) presentOld1
    have stand := standingOf_eq same
    have free : man2.vvNew new = none := by rw [news, Function.update_self]
    have times2 := still.times_of present2
    have count2 : info2.nRefCount = 0 := (congrArg Standing.nRefCount stand).trans old_left
    have new2 : info2.fInTried = false := congrArg Standing.fInTried stand
    let man3 : CAddrMan := { (man2.modify nIdEvict fun info =>
      { info with nRefCount := 1 }).setNew new (some nIdEvict) with nNew := man2.nNew + 1 }
    refine ⟨man3, ?_, ?_, key, ?_, ?_⟩
    · rw [presentOld]
      simp only [Option.bind_eq_bind, Option.bind_some]
      refine (congrArg (Option.bind · _) cleared).trans ?_
      show (guard (man2.vvNew new = none) : Option Unit).bind _ = some man3
      rw [guard, if_pos free]
      rfl
    · have occupied := still.tables.occupy free (standing_of_mapInfo present2) new2 (by
        have service : (standingOf info2).service = infoOld.addr.service := by rw [stand]; rfl
        rw [service, key]
        exact new_eq)
      have stand3 : { standingOf info2 with nRefCount := (standingOf info2).nRefCount + 1 } =
          standingOf { info2 with nRefCount := 1 } := by
        simp [standingOf, count2]
      rw [stand3] at occupied
      refine still.change present2 (fun info => { info with nRefCount := 1 }) rfl occupied
          (still.settled.update ?_ (by simp [standingOf, newBucketsPerAddress]) (fun _ _ => by
            simp [standingOf]))
          (still.times.update (fun _ _ => id) times2.1 times2.2.1 times2.2.2)
          (still.counts.update (still.below present2) ?_ ?_ ?_)
      · rintro m apart (rfl | rfl)
        · rfl
        · exact absurd rfl apart
      all_goals
        rw [standing_of_mapInfo present2]
        simp [standingOf, modify, setNew]
      omega
    · rw [show man3.vvTried = man2.vvTried from rfl, tried]
      exact Function.update_self ..
    · have kept : man3.core nId = man2.core nId :=
        congrArg (Option.map unplaced) (modify_mapInfo_of_ne _ different)
      rw [kept, cores nId not_here]
      exact congrArg (Option.map unplaced) (present1.trans present.symm)

/-- A new entry leaves a bucket. -/
theorem leaveBucket_spec {nId : Nat} {info : CAddrInfo}
    (consistent : Consistent ctx (· = nId) (· = nId) 0 man) (present : man.mapInfo nId = some info)
    (isNew : info.fInTried = false) (nBucket : Fin newBucketCount) :
    let man' := leaveBucket ctx nId info.addr.service man nBucket
    Consistent ctx (· = nId) (· = nId) 0 man' ∧ man'.nKey = man.nKey ∧
      (∃ info', man'.mapInfo nId = some info' ∧ info'.addr = info.addr ∧ info'.fInTried = false) ∧
      ∀ slot, man'.vvNew slot = some nId → man.vvNew slot = some nId ∧ slot.1 ≠ nBucket := by
  intro man'
  have stands := standing_of_mapInfo present
  have times := consistent.times_of present
  have few := (consistent.settled nId _ stands).1
  by_cases here : man.vvNew (ctx.newSlot man.nKey info.addr.service nBucket) = some nId
  · have left : man' = (man.setNew (ctx.newSlot man.nKey info.addr.service nBucket) none).modify nId
        fun info => { info with nRefCount := info.nRefCount - 1 } := if_pos here
    rw [left]
    refine ⟨?_, rfl, ⟨{ info with nRefCount := info.nRefCount - 1 }, ?_, rfl, isNew⟩, ?_⟩
    · refine consistent.change present (fun info => { info with nRefCount := info.nRefCount - 1 })
        rfl (consistent.tables.clear here stands)
        (consistent.settled.update (fun _ _ => id) ?_ (fun _ not_here => absurd rfl not_here))
        (consistent.times.update (fun _ _ => id) times.1 times.2.1 times.2.2)
        (consistent.counts.keep (consistent.below present) stands rfl)
      simp only [standingOf] at few ⊢
      omega
    · rw [modify_mapInfo_self]
      exact congrArg (Option.map _) present
    · intro slot there
      have inside : Function.update man.vvNew (ctx.newSlot man.nKey info.addr.service nBucket) none
        slot = some nId := there
      rw [Function.update_apply] at inside
      split_ifs at inside with same
      refine ⟨inside, ?_⟩
      rintro rfl
      exact same (consistent.tables.new slot nId _ inside stands).2
  · have left : man' = man := if_neg here
    rw [left]
    refine ⟨consistent, rfl, ⟨info, present, rfl, isNew⟩, fun slot there => ⟨there, ?_⟩⟩
    rintro rfl
    have place := (consistent.tables.new slot nId _ there stands).2
    have place : slot = ctx.newSlot man.nKey info.addr.service slot.1 := place
    exact here (place ▸ there)

/-- A new entry leaves all its buckets. -/
theorem leaveBuckets_spec {nId : Nat} (buckets : List (Fin newBucketCount)) :
    ∀ {man : CAddrMan} {info : CAddrInfo}, Consistent ctx (· = nId) (· = nId) 0 man →
      man.mapInfo nId = some info → info.fInTried = false →
      let man' := buckets.foldl (leaveBucket ctx nId info.addr.service) man
      Consistent ctx (· = nId) (· = nId) 0 man' ∧ man'.nKey = man.nKey ∧
        (∃ info', man'.mapInfo nId = some info' ∧ info'.addr = info.addr ∧
          info'.fInTried = false) ∧
        ∀ slot, man'.vvNew slot = some nId → man.vvNew slot = some nId ∧ slot.1 ∉ buckets := by
  induction buckets with
  | nil =>
      intro man info consistent present isNew
      exact ⟨consistent, rfl, ⟨info, present, rfl, isNew⟩,
        fun _ there => ⟨there, List.not_mem_nil⟩⟩
  | cons first rest ih =>
      intro man info consistent present isNew
      obtain ⟨consistent1, key1, ⟨info1, present1, addr1, isNew1⟩, left1⟩ :=
        leaveBucket_spec consistent present isNew first
      obtain ⟨consistent2, key2, ⟨info2, present2, addr2, isNew2⟩, left2⟩ :=
        ih consistent1 present1 isNew1
      rw [addr1] at consistent2 key2 present2 addr2 left2
      refine ⟨consistent2, key2.trans key1, ⟨info2, present2, addr2, isNew2⟩, ?_⟩
      intro slot there
      obtain ⟨there1, not_rest⟩ := left2 slot there
      obtain ⟨there0, not_first⟩ := left1 slot there1
      exact ⟨there0, by simp [not_first, not_rest]⟩

/-- A new entry moves to the tried table. -/
theorem makeTried_spec {nId : Nat} {info : CAddrInfo}
    (consistent : Consistent ctx (· = nId) (· = nId) 0 man) (present : man.mapInfo nId = some info)
    (isNew : info.fInTried = false) {addr : CAddrInfo} (same : addr.addr = info.addr) :
    ∃ man', man.makeTried ctx addr nId = some man' ∧ Consistent ctx nobody nobody 0 man' ∧
      man'.nKey = man.nKey := by
  unfold makeTried
  rw [same]
  have every : ∀ nBucket, nBucket ∈ List.finRange newBucketCount := List.mem_finRange
  -- the long list of the buckets is not to be evaluated
  generalize List.finRange newBucketCount = buckets at every ⊢
  obtain ⟨consistent1, key1, ⟨info1, present1, addr1, isNew1⟩, left1⟩ :=
    leaveBuckets_spec buckets consistent present isNew
  generalize buckets.foldl (leaveBucket ctx nId info.addr.service) man = man1
    at consistent1 key1 present1 left1 ⊢
  have none_left : info1.nRefCount = 0 := by
    have count := consistent1.refs_of present1
    have nowhere := (refs_pos_iff man1.vvNew nId).not.mpr fun ⟨slot, there⟩ =>
      (left1 slot there).2 (every slot.1)
    omega
  have counted : Consistent ctx (· = nId) (· = nId) 1 { man1 with nNew := man1.nNew - 1 } := by
    refine { consistent1 with counts := ?_ }
    have total : man1.nNew - 1 + 1 = man1.nNew + 0 := by omega
    show Counts man1.nIdCount man1.standing man1.vRandom.length man1.nTried (man1.nNew - 1 + 1)
    rw [total]
    exact consistent1.counts
  set slot := ctx.triedSlot man1.nKey info.addr.service with slot_eq
  obtain ⟨man2, evicted, consistent2, key2, free, core2⟩ :=
    evict_spec counted present1 isNew1 none_left slot
  obtain ⟨info2, present2, same2⟩ := mapInfo_of_core core2 present1
  have stand2 := standingOf_eq same2
  have times2 := consistent2.times_of present2
  have left2 : info2.nRefCount = 0 := (congrArg Standing.nRefCount stand2).trans none_left
  have new2 : info2.fInTried = false := (congrArg Standing.fInTried stand2).trans isNew1
  have service2 : info2.addr.service = info.addr.service :=
    (congrArg Standing.service stand2).trans (congrArg CAddress.service addr1)
  have slot2 : ctx.triedSlot man2.nKey (standingOf info2).service = slot := by
    rw [show (standingOf info2).service = info.addr.service from service2, key2]
  let man3 : CAddrMan :=
    ({ man2.setTried slot (some nId) with nTried := man2.nTried + 1 }).modify nId
      fun info => { info with fInTried := true }
  refine ⟨man3, ?_, ?_, key2.trans key1⟩
  · simp only [present1, Option.bind_eq_bind, Option.bind_some, guard, none_left, if_true]
    refine (congrArg (Option.bind · _) evicted).trans ?_
    show (guard (man2.vvTried slot = none) : Option Unit).bind _ = some man3
    rw [guard, if_pos free]
    rfl
  · have tables := consistent2.tables.promote (standing_of_mapInfo present2) left2
      (by rw [slot2]; exact free)
    rw [slot2] at tables
    refine consistent2.change present2 (fun info => { info with fInTried := true }) rfl tables
      (consistent2.settled.update ?_ ?_ (fun tried => by cases tried))
      (consistent2.times.update (fun _ _ => False.elim) (fun _ => times2.1 (.inr rfl)) times2.2.1
        times2.2.2)
      (consistent2.counts.update (consistent2.below present2) ?_ ?_ ?_)
    · intro m apart here
      exact absurd here apart
    · simp [standingOf, left2, newBucketsPerAddress]
    all_goals
      rw [standing_of_mapInfo present2]
      simp [standingOf, new2, one, setTried]

end GiantCore.CAddrMan
