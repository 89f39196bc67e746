import GiantCore.Network.AddrConsistency

/-! # The calls of the address manager

Each call keeps the invariant and fails no assertion, so every run of calls does; and the check
finds nothing in a manager with the invariant but a key that is null.
-/

namespace GiantCore.CAddrMan

open GiantCore.Foundation.Counting

variable {ctx : AddrContext} {man : CAddrMan}

/-- A call keeps the invariant. -/
def Keeps (ctx : AddrContext) (man : CAddrMan) (result : Option CAddrMan) : Prop :=
  ∃ man', result = some man' ∧ Consistent ctx nobody nobody 0 man' ∧ man'.nKey = man.nKey

/-- An address that is found has an entry. -/
theorem find_eq_some {ip : List UInt8} {nId : Nat} {info : CAddrInfo}
    (found : man.find ip = some (nId, info)) : man.mapInfo nId = some info := by
  unfold find at found
  obtain ⟨other, _, there⟩ := Option.bind_eq_some_iff.mp found
  obtain ⟨other_info, present, same⟩ := Option.map_eq_some_iff.mp there
  cases same
  exact present

/-- An address that is not found has no identifier. -/
theorem mapAddr_of_find (consistent : Consistent ctx nobody nobody 0 man) {ip : List UInt8}
    (unknown : man.find ip = none) : man.mapAddr ip = none := by
  by_contra known
  obtain ⟨nId, found⟩ := Option.ne_none_iff_exists'.mp known
  obtain ⟨info, present⟩ := mapInfo_of_whereabouts (consistent.index.addrKnown ip nId found)
  unfold find at unknown
  rw [found] at unknown
  simp [present] at unknown

/-- `Attempt` keeps consistency. -/
theorem attempt_keeps (consistent : Consistent ctx nobody nobody 0 man) (addr : CService)
    {nTime : Int} (timely : 0 < nTime) : Keeps ctx man (some (man.attempt addr nTime)) := by
  refine ⟨_, rfl, ?_⟩
  unfold attempt
  split
  case h_1 => exact ⟨consistent, rfl⟩
  case h_2 nId info found =>
    have present := find_eq_some found
    have times := consistent.times_of present
    split_ifs
    · exact ⟨consistent, rfl⟩
    · exact ⟨consistent.note present _ rfl rfl (fun _ _ => id) times.1 times.2.1 timely.le, rfl⟩

/-- `Connected` keeps consistency. -/
theorem connected_keeps (consistent : Consistent ctx nobody nobody 0 man) (addr : CService)
    (nTime : Int) : Keeps ctx man (some (man.connected addr nTime)) := by
  refine ⟨_, rfl, ?_⟩
  unfold connected
  split
  case h_1 => exact ⟨consistent, rfl⟩
  case h_2 nId info found =>
    have present := find_eq_some found
    have times := consistent.times_of present
    split_ifs
    · exact ⟨consistent, rfl⟩
    · exact ⟨consistent.note present _ rfl rfl (fun _ _ => id) times.1 times.2.1 times.2.2, rfl⟩
    · exact ⟨consistent, rfl⟩

/-- `Good` keeps consistency. -/
theorem good_keeps (consistent : Consistent ctx nobody nobody 0 man) (addr : CService)
    {nTime : Int} (timely : 0 < nTime) (nRnd : Nat) :
    Keeps ctx man (man.good ctx addr nTime nRnd) := by
  unfold good
  split
  case h_1 => exact ⟨man, rfl, consistent, rfl⟩
  case h_2 nId info found =>
    have present := find_eq_some found
    by_cases other : info.addr.service ≠ addr
    · rw [if_pos other]
      exact ⟨man, rfl, consistent, rfl⟩
    · rw [if_neg other]
      let change : CAddrInfo → CAddrInfo := fun info =>
        { info with nLastSuccess := nTime, nLastTry := nTime, nAttempts := 0 }
      have noted : ∀ due : Nat → Prop, (∀ m, m ≠ nId → due m → nobody m) →
          Consistent ctx nobody due 0 (man.modify nId change) := fun due shrinks =>
        consistent.note present change rfl rfl shrinks (fun _ => timely) timely.le timely.le
      have still : Keeps ctx man (some (man.modify nId change)) :=
        ⟨_, rfl, noted nobody fun _ _ => id, rfl⟩
      have present1 : (man.modify nId change).mapInfo nId = some (change info) := by
        rw [modify_mapInfo_self, present]
        rfl
      by_cases tried : info.fInTried = true
      · simp only [tried, if_true]
        exact still
      · simp only [tried]
        rw [if_neg Bool.false_ne_true]
        split_ifs
        · exact still
        · have moving : Consistent ctx (· = nId) (· = nId) 0 (man.modify nId change) :=
            (noted (· = nId) fun _ apart here => absurd here apart).settle
              fun _ _ _ => False.elim
          exact makeTried_spec moving present1 (Bool.not_eq_true _ ▸ tried) rfl

/-- A created entry still waits for its first slot. -/
theorem create_consistent (consistent : Consistent ctx nobody nobody 0 man) (addr : CAddress)
    (source : List UInt8) (unknown : man.mapAddr addr.service.ip = none) :
    Consistent ctx (· = man.nIdCount) nobody 1 (man.create addr source).2 := by
  let info : CAddrInfo := { addr, source, nRandomPos := man.vRandom.length }
  have absent : man.standing man.nIdCount = none := by
    have fresh := consistent.index.fresh man.nIdCount le_rfl
    unfold whereabouts at fresh
    unfold standing
    rw [Option.map_eq_none_iff] at fresh ⊢
    exact fresh
  refine .of_views (map_update man.mapInfo man.nIdCount (some info) whereaboutsOf)
    (map_update man.mapInfo man.nIdCount (some info) standingOf)
    (map_update man.mapInfo man.nIdCount (some info) unplaced) (consistent.index.push unknown)
    (consistent.tables.insert absent addr.service)
    (consistent.settled.update (fun _ _ => False.elim) ?_ (fun _ settles => absurd rfl settles))
    (consistent.times.update (fun _ _ => id) ?_ le_rfl le_rfl) ?_
  · show (0 : Int) ≤ newBucketsPerAddress
    decide
  · rintro (tried | due)
    · cases tried
    · exact due.elim
  · have counts := consistent.counts.push addr.service
    have total : man.nNew + 0 + 1 = man.nNew + 1 := by omega
    have length : (man.create addr source).2.vRandom.length = man.vRandom.length + 1 := by
      simp [create]
    rw [total] at counts
    rw [length]
    exact counts

/-- An address that is known is refreshed. -/
theorem Consistent.refresh {nId : Nat} {info : CAddrInfo}
    (consistent : Consistent ctx nobody nobody 0 man) (present : man.mapInfo nId = some info)
    (addr : CAddress) (nTimePenalty : Int) (choices : AddChoices) :
    Consistent ctx nobody nobody 0 (man.refresh nId info addr nTimePenalty choices).1 := by
  have times := consistent.times_of present
  exact consistent.note present _ rfl rfl (fun _ _ => id) times.1 times.2.1 times.2.2

/-- `Add` keeps consistency. -/
theorem add_keeps (consistent : Consistent ctx nobody nobody 0 man) (addr : CAddress)
    (source : List UInt8) (nTimePenalty : Int) (choices : AddChoices) :
    Keeps ctx man ((man.add ctx addr source nTimePenalty choices).map Prod.fst) := by
  unfold add
  split_ifs with routable
  · exact ⟨man, rfl, consistent, rfl⟩
  split
  case h_1 nId info found =>
    have present := find_eq_some found
    have refreshed := consistent.refresh present addr nTimePenalty choices
    have key : (man.refresh nId info addr nTimePenalty choices).1.nKey = man.nKey := rfl
    have again : (man.refresh nId info addr nTimePenalty choices).2 = true →
        info.fInTried = false ∧ info.nRefCount ≠ newBucketsPerAddress := by
      intro again
      simp only [refresh, decide_eq_true_eq] at again
      exact ⟨again.2.2.1, again.2.2.2.1⟩
    have stands : (man.refresh nId info addr nTimePenalty choices).1.standing = man.standing :=
      view_modify_of_keeps man nId _ standingOf fun _ => rfl
    generalize man.refresh nId info addr nTimePenalty choices = result
      at refreshed key again stands ⊢
    obtain ⟨man1, more⟩ := result
    simp only
    split_ifs with places
    · obtain ⟨isNew, room⟩ := again places
      have stand1 : man1.standing nId = some (standingOf info) :=
        (congrFun stands nId).trans (standing_of_mapInfo present)
      obtain ⟨info1, present1, stand⟩ := Option.map_eq_some_iff.mp stand1
      have few := (refreshed.settled nId _ (standing_of_mapInfo present1)).1
      rw [stand] at few
      have waiting : Consistent ctx (· = nId) nobody 0 man1 :=
        refreshed.settle fun _ _ _ => False.elim
      have count1 : info1.nRefCount = info.nRefCount := congrArg Standing.nRefCount stand
      have new1 : info1.fInTried = info.fInTried := congrArg Standing.fInTried stand
      obtain ⟨man', placed, still, key'⟩ := place_spec source choices.nowTerrible waiting present1
        (new1.trans isNew) (by rw [count1]; exact lt_of_le_of_ne few room)
      refine ⟨man', ?_, still, key'.trans key⟩
      rw [placed]
      rfl
    · exact ⟨man1, rfl, refreshed, key⟩
  case h_2 unknown =>
    have created := create_consistent consistent addr source (mapAddr_of_find consistent unknown)
    have present : (man.create addr source).2.mapInfo man.nIdCount =
        some { addr, source, nRandomPos := man.vRandom.length } := Function.update_self ..
    have times := created.times_of present
    let nTime := (max 0 ((addr.nTime : Int) - nTimePenalty)).toNat % 2 ^ 32
    let change : CAddrInfo → CAddrInfo := fun info => { info with addr := { info.addr with nTime } }
    let man1 := (man.create addr source).2.modify man.nIdCount change
    have noted : Consistent ctx (· = man.nIdCount) nobody 1 man1 :=
      created.note present change rfl rfl (fun _ _ => id) times.1 times.2.1 times.2.2
    have counted : Consistent ctx (· = man.nIdCount) nobody 0
        { man1 with nNew := man1.nNew + 1 } := by
      refine { noted with counts := ?_ }
      have total : man1.nNew + 1 + 0 = man1.nNew + 1 := by omega
      show Counts man1.nIdCount man1.standing man1.vRandom.length man1.nTried (man1.nNew + 1 + 0)
      rw [total]
      exact noted.counts
    have present1 : man1.mapInfo man.nIdCount =
        some (change { addr, source, nRandomPos := man.vRandom.length }) := by
      show ((man.create addr source).2.modify man.nIdCount change).mapInfo man.nIdCount = _
      rw [modify_mapInfo_self, present]
      rfl
    obtain ⟨man', placed, still, key⟩ := place_spec source choices.nowTerrible counted present1 rfl
      (show (0 : Int) < newBucketsPerAddress by decide)
    refine ⟨man', ?_, still, key⟩
    exact congrArg (fun result => (result.map fun man => (man, true)).map Prod.fst) placed

/-- The loop of `GetAddr` keeps consistency. -/
theorem getAddrLoop_keeps (nNodes : Nat) (nRand : Nat → Nat) (nNow : Nat → Int) (rounds : Nat) :
    ∀ (n : Nat) (man : CAddrMan) (vAddr : List CAddress), Consistent ctx nobody nobody 0 man →
      Keeps ctx man ((getAddrLoop nNodes nRand nNow rounds n man vAddr).map Prod.fst) := by
  induction rounds with
  | zero =>
      intro n man vAddr consistent
      exact ⟨man, rfl, consistent, rfl⟩
  | succ rounds ih =>
      intro n man vAddr consistent
      unfold getAddrLoop
      split_ifs with done
      · exact ⟨man, rfl, consistent, rfl⟩
      · have below : n < man.vRandom.length := by omega
        have other : nRand n % (man.vRandom.length - n) + n < man.vRandom.length := by
          have rest := Nat.mod_lt (nRand n) (by omega : man.vRandom.length - n > 0)
          omega
        obtain ⟨infos, random, swapped, still, _, length, _⟩ :=
          swapRandom_spec consistent below other
        have at_n : random[n]? = some random[n] := List.getElem?_eq_getElem (by omega)
        obtain ⟨info, present⟩ := mapInfo_of_whereabouts (still.index.random n _ at_n)
        have present : infos random[n] = some info := present
        simp only [swapped, at_n, present, Option.bind_eq_bind, Option.bind_some]
        exact ih (n + 1) _ _ still

/-- `GetAddr` keeps consistency. -/
theorem getAddr_keeps (consistent : Consistent ctx nobody nobody 0 man) (nRand : Nat → Nat)
    (nNow : Nat → Int) : Keeps ctx man ((man.getAddr nRand nNow).map Prod.fst) :=
  getAddrLoop_keeps _ nRand nNow _ 0 man [] consistent

/-- **No assertion fails in a call, and it keeps the invariant.** -/
theorem run_keeps (consistent : Consistent ctx nobody nobody 0 man) {call : Call}
    (timely : call.Timely) : Keeps ctx man (man.run ctx call) := by
  cases call with
  | add addr source nTimePenalty choices =>
      exact add_keeps consistent addr source nTimePenalty choices
  | good addr nTime nRnd => exact good_keeps consistent addr timely nRnd
  | attempt addr nTime => exact attempt_keeps consistent addr timely
  | connected addr nTime => exact connected_keeps consistent addr nTime
  | getAddr nRand nNow => exact getAddr_keeps consistent nRand nNow

/-- The empty manager. -/
theorem consistent_empty (ctx : AddrContext) (nKey : Uint256) :
    Consistent ctx nobody nobody 0 { nKey } := by
  have index : Index 0 (fun _ => none) (fun _ => none) [] :=
    ⟨fun _ _ => rfl, nofun, nofun, nofun, nofun, nofun, nofun⟩
  have tables : Tables ctx nKey (fun _ => none) (fun _ => none) (fun _ => none) :=
    ⟨nofun, nofun, nofun, nofun, nofun, nofun⟩
  have counts : Counts 0 (fun _ => none) 0 0 (0 + 0) := ⟨rfl, rfl, rfl⟩
  exact .of_views rfl rfl rfl index tables nofun nofun counts

/-! ## The check -/

section Check

variable (consistent : Consistent ctx nobody nobody 0 man)
include consistent

/-- A tried entry has no reference in the new table. -/
theorem refs_of_tried {n : Nat} {info : CAddrInfo} (present : man.mapInfo n = some info)
    (tried : info.fInTried = true) : refs man.vvNew n = 0 := by
  have nowhere := (refs_pos_iff man.vvNew n).not.mpr fun ⟨slot, there⟩ => by
    have isNew := (consistent.tables.new slot n _ there (standing_of_mapInfo present)).1
    rw [show (standingOf info).fInTried = true from tried] at isNew
    cases isNew
  omega

/-- What has no entry has no reference. -/
theorem refs_of_absent {n : Nat} (absent : man.mapInfo n = none) : refs man.vvNew n = 0 := by
  have nowhere := (refs_pos_iff man.vvNew n).not.mpr fun ⟨slot, there⟩ => by
    obtain ⟨info, present⟩ := mapInfo_of_standing (consistent.tables.known slot n there)
    rw [absent] at present
    cases present
  omega

/-- The count of an entry is the number of its references. -/
theorem refCountOf_eq (n : Nat) : man.refCountOf n = refs man.vvNew n := by
  unfold refCountOf
  cases present : man.mapInfo n with
  | none =>
      rw [refs_of_absent consistent present]
      rfl
  | some info =>
      have count := consistent.refs_of present
      simp only [Option.elim_some]
      split_ifs with tried
      · rw [refs_of_tried consistent present tried]
        rfl
      · exact count

/-- The checks of one entry pass. -/
theorem checkEntry_eq_none {n : Nat} {info : CAddrInfo} (present : man.mapInfo n = some info) :
    man.checkEntry n info = none := by
  have stands := standing_of_mapInfo present
  have places := whereabouts_of_mapInfo present
  have times := consistent.times_of present
  have count := consistent.refs_of present
  obtain ⟨few, placed⟩ := consistent.settled n _ stands
  have found : man.mapAddr info.addr.service.ip = some n := consistent.index.addr n _ places
  obtain ⟨nonneg, at_pos⟩ := consistent.index.pos n _ places
  have nonneg : 0 ≤ info.nRandomPos := nonneg
  have at_pos : man.vRandom[info.nRandomPos.toNat]? = some n := at_pos
  have below := (List.getElem?_eq_some_iff.mp at_pos).1
  have few : info.nRefCount ≤ newBucketsPerAddress := few
  unfold checkEntry
  rw [if_neg, if_neg, if_neg, if_neg, if_neg, if_neg, if_neg, if_neg]
  · omega
  · omega
  · rintro (negative | above | elsewhere)
    · omega
    · omega
    · exact elsewhere at_pos
  · rw [found]
    simp
  · rintro ⟨isNew, zero⟩
    have positive : 0 < info.nRefCount := placed isNew id
    omega
  · rintro ⟨_, outside⟩
    omega
  · rintro ⟨tried, nonzero⟩
    have none_left := refs_of_tried consistent present tried
    omega
  · rintro ⟨tried, zero⟩
    have success := times.1 (.inl tried)
    omega

/-- The checks of all entries pass. -/
theorem entries_findSome :
    (man.entries.findSome? fun (n, info) => man.checkEntry n info) = none := by
  rw [List.findSome?_eq_none_iff]
  rintro ⟨n, info⟩ member
  unfold entries at member
  obtain ⟨m, _, there⟩ := List.mem_filterMap.mp member
  obtain ⟨other, present, same⟩ := Option.map_eq_some_iff.mp there
  cases same
  exact checkEntry_eq_none consistent present

/-- The tried entries are counted. -/
theorem countP_isTried : ((List.range man.nIdCount).countP man.isTried : Int) = man.nTried := by
  rw [← consistent.counts.tried]
  congr 2
  funext n
  simp [isTried, standing, standingOf, Option.any_map]

/-- The new entries are counted. -/
theorem countP_isNew :
    ((List.range man.nIdCount).countP (man.refCountOf · ≠ 0) : Int) = man.nNew := by
  have counts := consistent.counts.new
  rw [add_zero] at counts
  rw [← counts]
  congr 2
  funext n
  unfold refCountOf standing
  cases present : man.mapInfo n with
  | none => rfl
  | some info =>
      have placed := (consistent.settled n _ (standing_of_mapInfo present)).2
      cases tried : info.fInTried with
      | true => simp [tried, standingOf]
      | false =>
          have positive : 0 < info.nRefCount := placed tried id
          simp [tried, standingOf]
          omega

/-- The random order holds every entry. -/
theorem length_vRandom : (man.vRandom.length : Int) = man.nTried + man.nNew := by
  have size := consistent.counts.size
  have tried := consistent.counts.tried
  have new := consistent.counts.new
  rw [add_zero] at new
  rw [← size, ← tried, ← new]
  have split : ∀ ids : List Nat, ids.countP (fun n => (man.standing n).isSome) =
      ids.countP (fun n => (man.standing n).any (·.fInTried)) +
        ids.countP (fun n => (man.standing n).any (!·.fInTried)) := by
    intro ids
    induction ids with
    | nil => rfl
    | cons n rest ih =>
        simp only [List.countP_cons, ih]
        cases man.standing n with
        | none => simp
        | some entry => cases tried : entry.fInTried <;> simp [tried] <;> omega
  rw [split]
  push_cast
  rfl

/-- Tried entries are those that have a slot in the tried table. -/
theorem isTried_iff (n : Nat) :
    man.isTried n = true ↔ ∃ slot ∈ allTried, man.vvTried slot = some n := by
  unfold isTried
  constructor
  · intro any
    obtain ⟨info, present, tried⟩ := (Option.any_eq_true ..).mp any
    exact ⟨_, mem_allTried _, consistent.tables.inTried n _ (standing_of_mapInfo present) tried⟩
  · rintro ⟨slot, _, there⟩
    obtain ⟨info, present⟩ := mapInfo_of_standing (consistent.tables.triedKnown slot n there)
    have tried := (consistent.tables.tried slot n _ there (standing_of_mapInfo present)).1
    rw [present]
    exact tried

/-- The walk over the tried table finds every tried entry once. -/
theorem checkTried_ok (slots : List TriedSlot) :
    ∀ setTried : Nat → Bool, slots.Nodup →
      (∀ n, setTried n = true ↔ ∃ slot ∈ slots, man.vvTried slot = some n) →
      ∃ rest, man.checkTried ctx slots setTried = .ok rest ∧ ∀ n, rest n = false := by
  induction slots with
  | nil =>
      intro setTried _ agrees
      refine ⟨setTried, rfl, fun n => ?_⟩
      simpa using agrees n
  | cons slot rest ih =>
      intro setTried nodup agrees
      obtain ⟨notin, rest_nodup⟩ := List.nodup_cons.mp nodup
      unfold checkTried
      split
      case h_1 free =>
        refine ih setTried rest_nodup fun n => ?_
        rw [agrees n]
        simp [free]
      case h_2 n here =>
        have member : setTried n = true := (agrees n).mpr ⟨slot, List.mem_cons_self, here⟩
        obtain ⟨info, present⟩ := mapInfo_of_standing (consistent.tables.triedKnown slot n here)
        have stands := standing_of_mapInfo present
        have place : slot = ctx.triedSlot man.nKey info.addr.service :=
          (consistent.tables.tried slot n _ here stands).2
        have bucket : ctx.getTriedBucket man.nKey info.addr.service = slot.1 := by rw [place]; rfl
        have position : ctx.getBucketPosition man.nKey info.addr.service false slot.1 = slot.2 := by
          rw [place]
          rfl
        rw [present, if_neg (by simp [member]), if_neg (by simp [bucket]),
          if_neg (by simp [position])]
        refine ih _ rest_nodup fun m => ?_
        by_cases same : m = n
        · subst same
          simp only [Function.update_self, Bool.false_eq_true, false_iff]
          rintro ⟨other, inside, there⟩
          have other_place : other = slot :=
            ((consistent.tables.tried other m _ there stands).2).trans place.symm
          exact notin (other_place ▸ inside)
        · rw [Function.update_of_ne same, agrees m]
          have apart : ¬ n = m := fun equal => same equal.symm
          simp [here, apart]

/-- The walk over the new table takes away every reference. -/
theorem checkNew_ok (slots : List NewSlot) :
    ∀ mapNew : Nat → Int,
      (∀ n, mapNew n = slots.countP fun slot => decide (man.vvNew slot = some n)) →
      ∃ rest, man.checkNew ctx slots mapNew = .ok rest ∧ ∀ n, rest n = 0 := by
  induction slots with
  | nil =>
      intro mapNew agrees
      exact ⟨mapNew, rfl, fun n => by simpa using agrees n⟩
  | cons slot rest ih =>
      intro mapNew agrees
      unfold checkNew
      split
      case h_1 free =>
        refine ih mapNew fun n => ?_
        rw [agrees n]
        simp [free]
      case h_2 n here =>
        have count : mapNew n = rest.countP (fun slot => decide (man.vvNew slot = some n)) + 1 := by
          rw [agrees n]
          simp [here]
        obtain ⟨info, present⟩ := mapInfo_of_standing (consistent.tables.known slot n here)
        have place : slot = ctx.newSlot man.nKey info.addr.service slot.1 :=
          (consistent.tables.new slot n _ here (standing_of_mapInfo present)).2
        have position : ctx.getBucketPosition man.nKey info.addr.service true slot.1 = slot.2 :=
          (congrArg Prod.snd place).symm
        rw [present, if_neg (by omega), if_neg (by simp [position])]
        refine ih _ fun m => ?_
        by_cases same : m = n
        · subst same
          rw [Function.update_self]
          omega
        · rw [Function.update_of_ne same, agrees m]
          have apart : ¬ n = m := fun equal => same equal.symm
          simp [here, apart]

/-- **The check finds nothing but a key that is null.** -/
theorem check_eq : man.check ctx = if man.nKey = 0 then -16 else 0 := by
  obtain ⟨setTried, tried_ok, tried_left⟩ := checkTried_ok consistent allTried man.isTried
    nodup_allTried (isTried_iff consistent)
  obtain ⟨mapNew, new_ok, new_left⟩ := checkNew_ok consistent allNew man.refCountOf
    (refCountOf_eq consistent)
  unfold check
  rw [if_neg (not_not.mpr (length_vRandom consistent)), entries_findSome consistent]
  simp only
  rw [if_neg (not_not.mpr (countP_isTried consistent)),
    if_neg (not_not.mpr (countP_isNew consistent)), tried_ok]
  simp only
  rw [new_ok]
  simp [tried_left, new_left]

end Check

/-! ## Runs -/

/-- A run of calls from a manager. -/
def runs (ctx : AddrContext) (man : CAddrMan) (calls : List Call) : Option CAddrMan :=
  calls.foldlM (fun man call => man.run ctx call) man

/-- Any calls keep consistency. -/
theorem runs_keeps (calls : List Call) :
    ∀ {man : CAddrMan}, Consistent ctx nobody nobody 0 man → (∀ call ∈ calls, call.Timely) →
      Keeps ctx man (man.runs ctx calls) := by
  induction calls with
  | nil =>
      intro man consistent _
      exact ⟨man, rfl, consistent, rfl⟩
  | cons call rest ih =>
      intro man consistent timely
      obtain ⟨man1, ran, consistent1, key1⟩ := run_keeps consistent (timely call List.mem_cons_self)
      obtain ⟨man2, ran2, consistent2, key2⟩ :=
        ih consistent1 fun other member => timely other (List.mem_cons_of_mem call member)
      refine ⟨man2, ?_, consistent2, key2.trans key1⟩
      unfold runs
      rw [List.foldlM_cons, ran]
      exact ran2

/-- **Every run is consistent.** No assertion fails, and the check finds nothing but a null key. -/
theorem runs_consistent (ctx : AddrContext) (nKey : Uint256) (calls : List Call)
    (timely : ∀ call ∈ calls, call.Timely) :
    ∃ man, runs ctx { nKey } calls = some man ∧
      man.check ctx = if nKey = 0 then -16 else 0 := by
  obtain ⟨man, ran, consistent, key⟩ := runs_keeps calls (consistent_empty ctx nKey) timely
  refine ⟨man, ran, ?_⟩
  rw [check_eq consistent, key]

/-- A network of one group whose hashes are all the same. -/
def flatContext : AddrContext where
  isRoutable _ := true
  getGroup _ := []
  getKey service := service.ip
  hash _ _ := 0

/-- An address that is added and then good. -/
def oneAddress : CService := { ip := [1, 2, 3, 4], port := 40444 }

def addThenGood : List Call :=
  [.add { service := oneAddress, nTime := 1000 } [1] 0 ⟨1000, 1000, 0⟩, .good oneAddress 1000 0]

/-- The calls of the example come at times after zero. -/
theorem addThenGood_timely : ∀ call ∈ addThenGood, call.Timely := by
  simp [addThenGood, Call.Timely]

/-- The calls of the example succeed. -/
theorem runs_consistent_addThenGood :
    ∃ man, runs flatContext { nKey := 1 } addThenGood = some man ∧
      man.check flatContext = if (1 : Uint256) = 0 then -16 else 0 :=
  runs_consistent flatContext 1 addThenGood addThenGood_timely

/-- The check does not accept a null key. -/
theorem not_runs_check_nullKey :
    ¬ ∀ (ctx : AddrContext) (nKey : Uint256) (calls : List Call),
      (∀ call ∈ calls, call.Timely) →
        ∃ man, runs ctx { nKey } calls = some man ∧ man.check ctx = 0 := by
  intro claim
  obtain ⟨man, ran, passes⟩ := claim flatContext 0 addThenGood addThenGood_timely
  obtain ⟨man', ran', consistent, key⟩ :=
    runs_keeps addThenGood (consistent_empty flatContext 0) addThenGood_timely
  rw [ran] at ran'
  cases ran'
  rw [check_eq consistent, key] at passes
  simp at passes

end GiantCore.CAddrMan
