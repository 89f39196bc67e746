import GiantCore.Foundation.Counting
import GiantCore.Network.AddrMan

/-! # The tables and the index of the address manager

What the tables say about the entries, and what the index says, each by itself. The operations of
the manager are made of few changes of either, and each change keeps its invariant.
-/

namespace GiantCore.CAddrMan

open GiantCore.Foundation.Counting

/-- What the tables know of an entry. -/
structure Standing where
  service : CService
  fInTried : Bool
  nRefCount : Int

/-- How many places of the new table an entry has. -/
def refs (vvNew : NewSlot → Option Nat) (n : Nat) : Nat :=
  allNew.countP fun slot => decide (vvNew slot = some n)

/-- The list has every slot of the new table. -/
theorem mem_allNew (slot : NewSlot) : slot ∈ allNew := by
  simp [allNew, List.product, List.mem_flatMap]

/-- It has each of them once. -/
theorem nodup_allNew : allNew.Nodup :=
  (List.nodup_finRange _).product (List.nodup_finRange _)

/-- The list has every slot of the tried table. -/
theorem mem_allTried (slot : TriedSlot) : slot ∈ allTried := by
  simp [allTried, List.product, List.mem_flatMap]

/-- It has each of them once. -/
theorem nodup_allTried : allTried.Nodup :=
  (List.nodup_finRange _).product (List.nodup_finRange _)

/-- The references after one slot changes. -/
theorem refs_update (vvNew : NewSlot → Option Nat) (slot : NewSlot) (value : Option Nat) (n : Nat) :
    refs (Function.update vvNew slot value) n + one (decide (vvNew slot = some n)) =
      refs vvNew n + one (decide (value = some n)) :=
  countP_update nodup_allNew (mem_allNew slot) vvNew value fun value => decide (value = some n)

/-- What has references is in a slot. -/
theorem refs_pos_iff (vvNew : NewSlot → Option Nat) (n : Nat) :
    0 < refs vvNew n ↔ ∃ slot, vvNew slot = some n := by
  unfold refs
  rw [List.countP_pos_iff]
  exact ⟨fun ⟨slot, _, holds⟩ => ⟨slot, by simpa using holds⟩,
    fun ⟨slot, holds⟩ => ⟨slot, mem_allNew slot, by simpa using holds⟩⟩

/-- The tables and the entries agree. -/
structure Tables (ctx : AddrContext) (nKey : Uint256) (standing : Nat → Option Standing)
    (vvNew : NewSlot → Option Nat) (vvTried : TriedSlot → Option Nat) : Prop where
  known : ∀ slot n, vvNew slot = some n → standing n ≠ none
  new : ∀ slot n entry, vvNew slot = some n → standing n = some entry →
    entry.fInTried = false ∧ slot = ctx.newSlot nKey entry.service slot.1
  refs : ∀ n entry, standing n = some entry → entry.nRefCount = refs vvNew n
  triedKnown : ∀ slot n, vvTried slot = some n → standing n ≠ none
  tried : ∀ slot n entry, vvTried slot = some n → standing n = some entry →
    entry.fInTried = true ∧ slot = ctx.triedSlot nKey entry.service
  inTried : ∀ n entry, standing n = some entry → entry.fInTried = true →
    vvTried (ctx.triedSlot nKey entry.service) = some n

namespace Tables

variable {ctx : AddrContext} {nKey : Uint256} {standing : Nat → Option Standing}
  {vvNew : NewSlot → Option Nat} {vvTried : TriedSlot → Option Nat} {n : Nat} {entry : Standing}

/-- What has no references is in no slot. -/
theorem notMem_of_refs (tables : Tables ctx nKey standing vvNew vvTried)
    (present : standing n = some entry) (none_left : entry.nRefCount = 0) (slot : NewSlot) :
    vvNew slot ≠ some n := by
  intro here
  have positive := (refs_pos_iff vvNew n).mpr ⟨slot, here⟩
  have count := tables.refs n entry present
  omega

/-- One place of the new table changes, for one entry only. -/
theorem refs_change (tables : Tables ctx nKey standing vvNew vvTried)
    (present : standing n = some entry) {slot : NewSlot} {value : Option Nat} {nRefCount : Int}
    (own : nRefCount + one (decide (vvNew slot = some n)) =
      entry.nRefCount + one (decide (value = some n)))
    (others : ∀ m, m ≠ n → vvNew slot ≠ some m ∧ value ≠ some m) (m : Nat) (info : Standing)
    (at_m : Function.update standing n (some { entry with nRefCount := nRefCount }) m = some info) :
    info.nRefCount = CAddrMan.refs (Function.update vvNew slot value) m := by
  have change := refs_update vvNew slot value m
  by_cases same : m = n
  · subst same
    have before := tables.refs m entry present
    rw [Function.update_self] at at_m
    cases at_m
    simp only
    omega
  · obtain ⟨was, becomes⟩ := others m same
    rw [Function.update_of_ne same] at at_m
    have before := tables.refs m info at_m
    rw [decide_eq_false was, decide_eq_false becomes] at change
    omega

/-- A slot of the new table is cleared. -/
theorem clear (tables : Tables ctx nKey standing vvNew vvTried) {slot : NewSlot}
    (here : vvNew slot = some n) (present : standing n = some entry) :
    Tables ctx nKey
      (Function.update standing n (some { entry with nRefCount := entry.nRefCount - 1 }))
      (Function.update vvNew slot none) vvTried where
  known := by
    intro other m inside
    have := tables.known other m
    simp only [Function.update_apply] at *
    grind
  new := by
    intro other m info inside at_m
    have := tables.new other m
    simp only [Function.update_apply] at *
    grind
  refs := by
    refine tables.refs_change present ?_ ?_
    · simp [one, here]
    · intro m apart
      rw [here]
      exact ⟨fun same => apart (Option.some.inj same).symm, (Option.some_ne_none m).symm⟩
  triedKnown := by
    intro other m inside
    have := tables.triedKnown other m
    simp only [Function.update_apply] at *
    grind
  tried := by
    intro other m info inside at_m
    have := tables.tried other m
    simp only [Function.update_apply] at *
    grind
  inTried := by
    intro m info at_m inTried
    have := tables.inTried m
    simp only [Function.update_apply] at *
    grind

/-- A free slot of the new table is taken. -/
theorem occupy (tables : Tables ctx nKey standing vvNew vvTried) {slot : NewSlot}
    (free : vvNew slot = none) (present : standing n = some entry) (isNew : entry.fInTried = false)
    (place : slot = ctx.newSlot nKey entry.service slot.1) :
    Tables ctx nKey
      (Function.update standing n (some { entry with nRefCount := entry.nRefCount + 1 }))
      (Function.update vvNew slot (some n)) vvTried where
  known := by
    intro other m inside
    have := tables.known other m
    simp only [Function.update_apply] at *
    grind
  new := by
    intro other m info inside at_m
    have := tables.new other m
    simp only [Function.update_apply] at *
    grind
  refs := by
    refine tables.refs_change present ?_ ?_
    · simp [one, free]
    · intro m apart
      rw [free]
      exact ⟨(Option.some_ne_none m).symm, fun same => apart (Option.some.inj same).symm⟩
  triedKnown := by
    intro other m inside
    have := tables.triedKnown other m
    simp only [Function.update_apply] at *
    grind
  tried := by
    intro other m info inside at_m
    have := tables.tried other m
    simp only [Function.update_apply] at *
    grind
  inTried := by
    intro m info at_m inTried
    have := tables.inTried m
    simp only [Function.update_apply] at *
    grind

/-- A new entry without references goes. -/
theorem remove (tables : Tables ctx nKey standing vvNew vvTried)
    (present : standing n = some entry) (isNew : entry.fInTried = false)
    (none_left : entry.nRefCount = 0) :
    Tables ctx nKey (Function.update standing n none) vvNew vvTried where
  known := by
    intro other m inside
    have := tables.known other m inside
    have := tables.notMem_of_refs present none_left other
    simp only [Function.update_apply] at *
    grind
  new := by
    intro other m info inside at_m
    have := tables.new other m
    have := tables.known other m
    have := tables.notMem_of_refs present none_left other
    simp only [Function.update_apply] at *
    grind
  refs := by
    intro m info at_m
    have := tables.refs m
    simp only [Function.update_apply] at *
    grind
  triedKnown := by
    intro other m inside
    have := tables.triedKnown other m
    have := tables.tried other m
    simp only [Function.update_apply] at *
    grind
  tried := by
    intro other m info inside at_m
    have := tables.tried other m
    have := tables.triedKnown other m
    simp only [Function.update_apply] at *
    grind
  inTried := by
    intro m info at_m inTried
    have := tables.inTried m
    simp only [Function.update_apply] at *
    grind

/-- A new entry comes, still without a slot. -/
theorem insert (tables : Tables ctx nKey standing vvNew vvTried) (absent : standing n = none)
    (service : CService) :
    Tables ctx nKey (Function.update standing n (some ⟨service, false, 0⟩)) vvNew vvTried where
  known := by
    intro other m inside
    have := tables.known other m
    simp only [Function.update_apply] at *
    grind
  new := by
    intro other m info inside at_m
    have := tables.new other m
    have := tables.known other m
    simp only [Function.update_apply] at *
    grind
  refs := by
    intro m info at_m
    have := tables.refs m
    have unplaced : ¬ 0 < CAddrMan.refs vvNew n := by
      rw [refs_pos_iff]
      rintro ⟨slot, here⟩
      exact tables.known slot n here absent
    simp only [Function.update_apply] at *
    grind
  triedKnown := by
    intro other m inside
    have := tables.triedKnown other m
    have := tables.tried other m
    simp only [Function.update_apply] at *
    grind
  tried := by
    intro other m info inside at_m
    have := tables.tried other m
    have := tables.triedKnown other m
    simp only [Function.update_apply] at *
    grind
  inTried := by
    intro m info at_m inTried
    have := tables.inTried m
    simp only [Function.update_apply] at *
    grind

/-- A tried entry leaves its slot. -/
theorem demote (tables : Tables ctx nKey standing vvNew vvTried) {slot : TriedSlot}
    (here : vvTried slot = some n) (present : standing n = some entry) :
    Tables ctx nKey (Function.update standing n (some { entry with fInTried := false })) vvNew
      (Function.update vvTried slot none) where
  known := by
    intro other m inside
    have := tables.known other m
    simp only [Function.update_apply] at *
    grind
  new := by
    intro other m info inside at_m
    have := tables.new other m
    have := tables.known other m
    simp only [Function.update_apply] at *
    grind
  refs := by
    intro m info at_m
    have := tables.refs m
    simp only [Function.update_apply] at *
    grind
  triedKnown := by
    intro other m inside
    have := tables.triedKnown other m
    have := tables.tried other m
    simp only [Function.update_apply] at *
    grind
  tried := by
    intro other m info inside at_m
    have := tables.tried other m
    have := tables.triedKnown other m
    have := tables.tried slot n
    simp only [Function.update_apply] at *
    grind
  inTried := by
    intro m info at_m inTried
    have := tables.inTried m
    have := tables.tried slot n
    simp only [Function.update_apply] at *
    grind

/-- An entry without references takes a slot of the tried table. -/
theorem promote (tables : Tables ctx nKey standing vvNew vvTried)
    (present : standing n = some entry) (none_left : entry.nRefCount = 0)
    (free : vvTried (ctx.triedSlot nKey entry.service) = none) :
    Tables ctx nKey (Function.update standing n (some { entry with fInTried := true })) vvNew
      (Function.update vvTried (ctx.triedSlot nKey entry.service) (some n)) where
  known := by
    intro other m inside
    have := tables.known other m inside
    have := tables.notMem_of_refs present none_left other
    simp only [Function.update_apply] at *
    grind
  new := by
    intro other m info inside at_m
    have := tables.new other m
    have := tables.known other m
    have := tables.notMem_of_refs present none_left other
    simp only [Function.update_apply] at *
    grind
  refs := by
    intro m info at_m
    have := tables.refs m
    simp only [Function.update_apply] at *
    grind
  triedKnown := by
    intro other m inside
    have := tables.triedKnown other m
    have := tables.tried other m
    simp only [Function.update_apply] at *
    grind
  tried := by
    intro other m info inside at_m
    have := tables.tried other m
    have := tables.triedKnown other m
    simp only [Function.update_apply] at *
    grind
  inTried := by
    intro m info at_m inTried
    have := tables.inTried m
    simp only [Function.update_apply] at *
    grind

end Tables

/-- What the index knows of an entry. -/
structure Whereabouts where
  ip : List UInt8
  nRandomPos : Int

/-- The index by address, the vector in random order and the entries agree. -/
structure Index (ids : Nat) (entries : Nat → Option Whereabouts) (mapAddr : List UInt8 → Option Nat)
    (vRandom : List Nat) : Prop where
  fresh : ∀ n, ids ≤ n → entries n = none
  addr : ∀ n entry, entries n = some entry → mapAddr entry.ip = some n
  addrKnown : ∀ ip n, mapAddr ip = some n → entries n ≠ none
  addrIp : ∀ ip n entry, mapAddr ip = some n → entries n = some entry → entry.ip = ip
  pos : ∀ n entry, entries n = some entry →
    0 ≤ entry.nRandomPos ∧ vRandom[entry.nRandomPos.toNat]? = some n
  random : ∀ (k : Nat) n, vRandom[k]? = some n → entries n ≠ none
  randomPos : ∀ (k : Nat) n entry, vRandom[k]? = some n → entries n = some entry →
    entry.nRandomPos = k

namespace Index

variable {ids : Nat} {entries : Nat → Option Whereabouts} {mapAddr : List UInt8 → Option Nat}
  {vRandom : List Nat}

/-- Two identifiers change places in the random order. -/
theorem swap (index : Index ids entries mapAddr vRandom) {k1 k2 n1 n2 : Nat}
    {entry1 entry2 : Whereabouts} (apart : k1 ≠ k2) (at1 : vRandom[k1]? = some n1)
    (at2 : vRandom[k2]? = some n2) (present1 : entries n1 = some entry1)
    (present2 : entries n2 = some entry2) :
    Index ids (Function.update
        (Function.update entries n1 (some { entry1 with nRandomPos := k2 })) n2
        (some { entry2 with nRandomPos := k1 }))
      mapAddr ((vRandom.set k1 n2).set k2 n1) := by
  have pos1 := index.randomPos k1 n1 entry1 at1 present1
  have pos2 := index.randomPos k2 n2 entry2 at2 present2
  have different : n1 ≠ n2 := by
    rintro rfl
    have same : entry1 = entry2 := by simpa [present1] using present2
    rw [same] at pos1
    omega
  constructor
  · intro n old
    have := index.fresh n old
    simp only [Function.update_apply] at *
    grind
  · intro n entry present
    have := index.addr n
    simp only [Function.update_apply] at *
    grind
  · intro ip n found
    have := index.addrKnown ip n found
    simp only [Function.update_apply] at *
    grind
  · intro ip n entry found present
    have := index.addrIp ip n
    simp only [Function.update_apply] at *
    grind
  · intro n entry present
    have := index.pos n
    have := index.randomPos k1
    have := index.randomPos k2
    simp only [Function.update_apply] at *
    grind
  · intro k n found
    have := index.random k n
    simp only [Function.update_apply] at *
    grind
  · intro k n entry found present
    have := index.randomPos k n
    have := index.randomPos k n1
    have := index.randomPos k n2
    simp only [Function.update_apply] at *
    grind

/-- The last identifier of the random order goes. -/
theorem drop (index : Index ids entries mapAddr vRandom) {n : Nat} {entry : Whereabouts}
    (last : vRandom[vRandom.length - 1]? = some n) (present : entries n = some entry) :
    Index ids (Function.update entries n none) (Function.update mapAddr entry.ip none)
      vRandom.dropLast := by
  have at_last := index.randomPos _ n entry last present
  constructor
  · intro m old
    have := index.fresh m old
    simp only [Function.update_apply] at *
    grind
  · intro m other there
    have := index.addr m
    have := index.addr n
    simp only [Function.update_apply] at *
    grind
  · intro ip m found
    have := index.addrKnown ip m
    have := index.addrIp ip m
    simp only [Function.update_apply] at *
    grind
  · intro ip m other found there
    have := index.addrIp ip m
    simp only [Function.update_apply] at *
    grind
  · intro m other there
    have := index.pos m
    simp only [Function.update_apply] at *
    grind
  · intro k m found
    have := index.random k m
    have := index.randomPos k m
    simp only [Function.update_apply] at *
    grind
  · intro k m other found there
    have := index.randomPos k m
    simp only [Function.update_apply] at *
    grind

/-- A new identifier comes last. -/
theorem push (index : Index ids entries mapAddr vRandom) {ip : List UInt8}
    (unknown : mapAddr ip = none) :
    Index (ids + 1) (Function.update entries ids (some ⟨ip, vRandom.length⟩))
      (Function.update mapAddr ip (some ids)) (vRandom ++ [ids]) := by
  have absent := index.fresh ids le_rfl
  constructor
  · intro m old
    have := index.fresh m
    simp only [Function.update_apply] at *
    grind
  · intro m other there
    have := index.addr m
    simp only [Function.update_apply] at *
    grind
  · intro found_ip m found
    have := index.addrKnown found_ip m
    simp only [Function.update_apply] at *
    grind
  · intro found_ip m other found there
    have := index.addrIp found_ip m
    have := index.addrKnown found_ip m
    simp only [Function.update_apply] at *
    grind
  · intro m other there
    have := index.pos m
    simp only [Function.update_apply] at *
    grind
  · intro k m found
    have := index.random k m
    simp only [Function.update_apply] at *
    grind
  · intro k m other found there
    have := index.randomPos k m
    have := index.random k m
    simp only [Function.update_apply] at *
    grind

end Index

/-- The counters and the number of entries. -/
structure Counts (ids : Nat) (standing : Nat → Option Standing) (size : Nat) (nTried nNew : Int) :
    Prop where
  size : (List.range ids).countP (fun n => (standing n).isSome) = size
  tried : (List.range ids).countP (fun n => (standing n).any (·.fInTried)) = nTried
  new : (List.range ids).countP (fun n => (standing n).any (!·.fInTried)) = nNew

namespace Counts

variable {ids : Nat} {standing : Nat → Option Standing} {size : Nat} {nTried nNew : Int} {n : Nat}

/-- The counts after one entry changes. -/
theorem update (counts : Counts ids standing size nTried nNew) (below : n < ids)
    {value : Option Standing} {size' : Nat} {nTried' nNew' : Int}
    (sizes : size' + one (standing n).isSome = size + one value.isSome)
    (trieds : nTried' + one ((standing n).any (·.fInTried)) =
      nTried + one (value.any (·.fInTried)))
    (news : nNew' + one ((standing n).any (!·.fInTried)) = nNew + one (value.any (!·.fInTried))) :
    Counts ids (Function.update standing n value) size' nTried' nNew' := by
  have change := fun test => countP_update List.nodup_range (List.mem_range.mpr below) standing
    value test
  have bySize := change Option.isSome
  have byTried := change fun entry => entry.any (·.fInTried)
  have byNew := change fun entry => entry.any (!·.fInTried)
  have ofSize := counts.size
  have ofTried := counts.tried
  have ofNew := counts.new
  constructor <;> omega

/-- The counts do not see a change inside one table. -/
theorem keep (counts : Counts ids standing size nTried nNew) (below : n < ids)
    {entry entry' : Standing} (present : standing n = some entry)
    (same : entry'.fInTried = entry.fInTried) :
    Counts ids (Function.update standing n (some entry')) size nTried nNew := by
  apply counts.update below <;> rw [present] <;> simp [same]

/-- A new entry is counted as such. -/
theorem push (counts : Counts ids standing size nTried nNew) (service : CService) :
    Counts (ids + 1) (Function.update standing ids (some ⟨service, false, 0⟩)) (size + 1) nTried
      (nNew + 1) := by
  have absent : ids ∉ List.range ids := by simp
  have ofSize := counts.size
  have ofTried := counts.tried
  have ofNew := counts.new
  constructor <;>
    rw [List.range_succ, List.countP_append, countP_update_of_notMem absent standing] <;>
    simp <;> omega

end Counts

end GiantCore.CAddrMan
