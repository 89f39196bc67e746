import GiantCore.Foundation.Limbs
import GiantCore.Foundation.Run
import Mathlib.Data.Finmap
import Mathlib.Data.Finset.Max
import Mathlib.Data.Finset.Sort
import Mathlib.Logic.Function.Basic

/-! # The key pool of the wallet

Keys are made ahead and kept in `pool` records of the wallet file; `setKeyPool` has the indices of
those that nobody has reserved. A reservation takes the smallest index out of the set, and either
the record is erased (`KeepKey`) or the index comes back (`ReturnKey`). `TopUpKeyPool` goes on from
the largest index of the set, not of the records, so a reservation of the last one would be written
over. In every run without one, no key is given to two users and every reserved record is there
(`keyPool_sound`).
-/

namespace GiantCore

/-- The parts of `CWallet` that the key pool is about. Keys are told apart by the order in which
they are made. -/
structure KeyPoolWallet where
  setKeyPool : Finset Int
  pool : Finmap fun _ : Int => Nat
  nGenerated : Nat
  locked : Bool

namespace KeyPoolWallet

/-- The index that `TopUpKeyPool` writes. -/
def nEnd (setKeyPool : Finset Int) : Int :=
  if some_ : setKeyPool.Nonempty then setKeyPool.max' some_ + 1 else 1

/-- A generated key is written, and its index is in the set. -/
def writePool (wallet : KeyPoolWallet) (nIndex : Int) : KeyPoolWallet :=
  { wallet with
    setKeyPool := insert nIndex wallet.setKeyPool
    pool := wallet.pool.insert nIndex wallet.nGenerated
    nGenerated := wallet.nGenerated + 1 }

theorem nEnd_not_mem (setKeyPool : Finset Int) : nEnd setKeyPool ∉ setKeyPool := by
  intro mem
  rw [nEnd, dif_pos ⟨_, mem⟩] at mem
  have above := setKeyPool.le_max' _ mem
  omega

/-- The loop of `TopUpKeyPool`. -/
def fill (size : Nat) (wallet : KeyPoolWallet) : KeyPoolWallet :=
  if short : wallet.setKeyPool.card < size then
    have : size - (wallet.writePool (nEnd wallet.setKeyPool)).setKeyPool.card <
        size - wallet.setKeyPool.card := by
      rw [writePool, Finset.card_insert_of_notMem (nEnd_not_mem _)]
      omega
    fill size (wallet.writePool (nEnd wallet.setKeyPool))
  else wallet
termination_by size - wallet.setKeyPool.card

/-- `nTargetSize + 1`, in an unsigned integer. -/
def targetRoom (keypoolArg : Int) (kpSize : Nat) : Nat :=
  let nTargetSize := if 0 < kpSize then kpSize else (max keypoolArg 0).toNat
  (nTargetSize + 1) % 2 ^ 32

variable (keypoolArg : Int)

/-- `TopUpKeyPool`. -/
def topUpKeyPool (wallet : KeyPoolWallet) (kpSize : Nat) : KeyPoolWallet :=
  if wallet.locked then wallet else fill (targetRoom keypoolArg kpSize) wallet

/-- `NewKeyPool`. -/
def newKeyPool (wallet : KeyPoolWallet) : KeyPoolWallet :=
  let cleared := { wallet with
    setKeyPool := ∅
    pool := (wallet.setKeyPool.sort (· ≤ ·)).foldl (fun pool nIndex => pool.erase nIndex)
      wallet.pool }
  if wallet.locked then cleared
  else (List.range (max keypoolArg 0).toNat).foldl
    (fun wallet (i : Nat) => wallet.writePool (i + 1)) cleared

/-- What `ReserveKeyFromKeyPool` comes to. -/
inductive Reserved
  | empty
  | threw
  | key (nIndex : Int) (vchPubKey : Nat)
  deriving DecidableEq, Repr

/-- The wallet with which `ReserveKeyFromKeyPool` looks for the oldest key. -/
def topped (wallet : KeyPoolWallet) : KeyPoolWallet :=
  if wallet.locked then wallet else wallet.topUpKeyPool keypoolArg 0

/-- `ReserveKeyFromKeyPool`. -/
def reserveKeyFromKeyPool (wallet : KeyPoolWallet) : KeyPoolWallet × Reserved :=
  let wallet := wallet.topped keypoolArg
  if some_ : wallet.setKeyPool.Nonempty then
    let nIndex := wallet.setKeyPool.min' some_
    let taken := { wallet with setKeyPool := wallet.setKeyPool.erase nIndex }
    match wallet.pool.lookup nIndex with
    | none => (taken, .threw)
    | some vchPubKey =>
        -- `HaveKey`: the wallet has the keys that it has made.
        if vchPubKey < wallet.nGenerated then (taken, .key nIndex vchPubKey) else (taken, .threw)
  else (wallet, .empty)

/-- `KeepKey`. -/
def keepKey (wallet : KeyPoolWallet) (nIndex : Int) : KeyPoolWallet :=
  { wallet with pool := wallet.pool.erase nIndex }

/-- `ReturnKey`. -/
def returnKey (wallet : KeyPoolWallet) (nIndex : Int) : KeyPoolWallet :=
  { wallet with setKeyPool := insert nIndex wallet.setKeyPool }

end KeyPoolWallet

/-- The wallet, the reservations that its users hold (`CReserveKey`), the keys that were given away
for good, and whether something was thrown. -/
structure KeyPoolState where
  wallet : KeyPoolWallet
  held : Nat → Option (Int × Nat)
  used : List Nat
  threw : Bool

/-- What users do with the key pool. -/
inductive KeyPoolOp
  | topUpKeyPool (kpSize : Nat)
  | newKeyPool
  | getReservedKey (user : Nat)
  | keepKey (user : Nat)
  | returnKey (user : Nat)
  | getKeyFromPool
  | getOldestKeyPoolTime
  | setLocked (locked : Bool)
  | restart (locked : Bool)

namespace KeyPoolState

open KeyPoolWallet

variable (keypoolArg : Int)

/-- One operation. A restart reads the set from the records. -/
def step (state : KeyPoolState) : KeyPoolOp → KeyPoolState
  | .topUpKeyPool kpSize =>
      { state with wallet := state.wallet.topUpKeyPool keypoolArg kpSize }
  | .newKeyPool => { state with wallet := state.wallet.newKeyPool keypoolArg }
  | .getReservedKey user =>
      match state.held user with
      | some _ => state
      | none =>
          match state.wallet.reserveKeyFromKeyPool keypoolArg with
          | (wallet, .empty) => { state with wallet }
          | (wallet, .threw) => { state with wallet, threw := true }
          | (wallet, .key nIndex vchPubKey) =>
              { state with
                wallet
                held := Function.update state.held user (some (nIndex, vchPubKey)) }
  | .keepKey user =>
      match state.held user with
      | none => state
      | some (nIndex, vchPubKey) =>
          { state with
            wallet := state.wallet.keepKey nIndex
            held := Function.update state.held user none
            used := vchPubKey :: state.used }
  | .returnKey user =>
      match state.held user with
      | none => state
      | some (nIndex, _) =>
          { state with
            wallet := state.wallet.returnKey nIndex
            held := Function.update state.held user none }
  | .getKeyFromPool =>
      match state.wallet.reserveKeyFromKeyPool keypoolArg with
      | (wallet, .empty) =>
          if wallet.locked then { state with wallet }
          else { state with
            wallet := { wallet with nGenerated := wallet.nGenerated + 1 }
            used := wallet.nGenerated :: state.used }
      | (wallet, .threw) => { state with wallet, threw := true }
      | (wallet, .key nIndex vchPubKey) =>
          { state with wallet := wallet.keepKey nIndex, used := vchPubKey :: state.used }
  | .getOldestKeyPoolTime =>
      match state.wallet.reserveKeyFromKeyPool keypoolArg with
      | (wallet, .empty) => { state with wallet }
      | (wallet, .threw) => { state with wallet, threw := true }
      | (wallet, .key nIndex _) => { state with wallet := wallet.returnKey nIndex }
  | .setLocked locked => { state with wallet := { state.wallet with locked } }
  | .restart locked =>
      { state with
        wallet := { state.wallet with setKeyPool := state.wallet.pool.keys, locked }
        held := fun _ => none }

/-- The conditions: the last index of the set is not reserved while a reservation is held, and all
keys are made anew only when none is. -/
def Careful (state : KeyPoolState) : KeyPoolOp → Prop
  | .newKeyPool => ∀ user, state.held user = none
  | .getReservedKey user =>
      state.held user = none → (state.wallet.topped keypoolArg).setKeyPool.card ≠ 1
  | .getKeyFromPool =>
      (state.wallet.topped keypoolArg).setKeyPool.card = 1 → ∀ user, state.held user = none
  | _ => True

/-- **The invariant.** The records are those of the set and those that are reserved, each key is in
one record at most, and none of them was given away. -/
structure Sound (state : KeyPoolState) : Prop where
  recorded : ∀ nIndex, nIndex ∈ state.wallet.pool ↔ nIndex ∈ state.wallet.setKeyPool ∨
    ∃ user key, state.held user = some (nIndex, key)
  reserved : ∀ {user nIndex key}, state.held user = some (nIndex, key) →
    state.wallet.pool.lookup nIndex = some key ∧ nIndex ∉ state.wallet.setKeyPool ∧
      ∃ later ∈ state.wallet.setKeyPool, nIndex < later
  once : ∀ {user user' nIndex key key'}, state.held user = some (nIndex, key) →
    state.held user' = some (nIndex, key') → user = user'
  keys : ∀ {nIndex nIndex' key}, state.wallet.pool.lookup nIndex = some key →
    state.wallet.pool.lookup nIndex' = some key → nIndex = nIndex'
  known : ∀ {nIndex key}, state.wallet.pool.lookup nIndex = some key →
    key < state.wallet.nGenerated
  gone : ∀ key ∈ state.used, key < state.wallet.nGenerated ∧
    ∀ nIndex, state.wallet.pool.lookup nIndex ≠ some key
  apart : state.used.Nodup

variable {keypoolArg} {state : KeyPoolState}

/-! ## Keys are made -/

theorem lookup_writePool (wallet : KeyPoolWallet) (nIndex other : Int) :
    (wallet.writePool nIndex).pool.lookup other =
      if other = nIndex then some wallet.nGenerated else wallet.pool.lookup other := by
  rw [KeyPoolWallet.writePool]
  split
  · rename_i same
    rw [same, Finmap.lookup_insert]
  · rename_i different
    exact Finmap.lookup_insert_of_ne _ different

/-- A record is written where there is none. -/
theorem Sound.writePool (sound : Sound state) {nIndex : Int}
    (fresh : nIndex ∉ state.wallet.pool) :
    Sound { state with wallet := state.wallet.writePool nIndex } where
  recorded other := by
    simp only [KeyPoolWallet.writePool, Finmap.mem_insert, Finset.mem_insert, sound.recorded other,
      or_assoc]
  reserved := by
    intro user other key taken
    obtain ⟨found, outside, later, mem, below⟩ := sound.reserved taken
    have different : other ≠ nIndex := fun same =>
      fresh (same ▸ Finmap.mem_of_lookup_eq_some found)
    refine ⟨?_, ?_, later, Finset.mem_insert_of_mem mem, below⟩
    · rw [lookup_writePool, if_neg different, found]
    · exact fun inside => (Finset.mem_insert.mp inside).elim different outside
  once := sound.once
  keys := by
    intro first second key found found'
    rw [lookup_writePool] at found found'
    split at found <;> split at found'
    · rename_i same same'
      exact same.trans same'.symm
    · rw [← Option.some.inj found] at found'
      exact absurd (sound.known found') (Nat.lt_irrefl _)
    · rw [← Option.some.inj found'] at found
      exact absurd (sound.known found) (Nat.lt_irrefl _)
    · exact sound.keys found found'
  known := by
    intro other key found
    rw [lookup_writePool] at found
    split at found
    · rw [← Option.some.inj found]
      exact Nat.lt_succ_self _
    · exact Nat.lt_succ_of_lt (sound.known found)
  gone := by
    intro key mem
    obtain ⟨made, nowhere⟩ := sound.gone key mem
    refine ⟨Nat.lt_succ_of_lt made, ?_⟩
    intro other found
    rw [lookup_writePool] at found
    split at found
    · exact absurd (Option.some.inj found) (Nat.ne_of_gt made)
    · exact nowhere other found
  apart := sound.apart

/-- The index that `TopUpKeyPool` writes has no record. -/
theorem Sound.nEnd_fresh (sound : Sound state) :
    nEnd state.wallet.setKeyPool ∉ state.wallet.pool := by
  intro mem
  rcases (sound.recorded _).mp mem with inside | ⟨user, key, taken⟩
  · exact nEnd_not_mem _ inside
  · obtain ⟨-, -, later, inside, below⟩ := sound.reserved taken
    rw [nEnd, dif_pos ⟨later, inside⟩] at below
    have above := state.wallet.setKeyPool.le_max' _ inside
    omega

theorem sound_fill (size : Nat) (wallet : KeyPoolWallet) (sound : Sound { state with wallet }) :
    Sound { state with wallet := KeyPoolWallet.fill size wallet } := by
  induction wallet using KeyPoolWallet.fill.induct size with
  | case1 wallet short _ ih =>
      rw [KeyPoolWallet.fill, dif_pos short]
      exact ih (sound.writePool sound.nEnd_fresh)
  | case2 wallet full =>
      rw [KeyPoolWallet.fill, dif_neg full]
      exact sound

theorem le_card_fill (size : Nat) (wallet : KeyPoolWallet) :
    size ≤ (KeyPoolWallet.fill size wallet).setKeyPool.card := by
  induction wallet using KeyPoolWallet.fill.induct size with
  | case1 wallet short _ ih =>
      rw [KeyPoolWallet.fill, dif_pos short]
      exact ih
  | case2 wallet full =>
      rw [KeyPoolWallet.fill, dif_neg full]
      exact Nat.not_lt.mp full

theorem Sound.topUpKeyPool (sound : Sound state) (kpSize : Nat) :
    Sound { state with wallet := state.wallet.topUpKeyPool keypoolArg kpSize } := by
  rw [KeyPoolWallet.topUpKeyPool]
  split
  · exact sound
  · exact sound_fill _ _ sound

theorem Sound.topped (sound : Sound state) :
    Sound { state with wallet := state.wallet.topped keypoolArg } := by
  rw [KeyPoolWallet.topped]
  split
  · exact sound
  · exact sound.topUpKeyPool 0

theorem lookup_erases (indices : List Int) (pool : Finmap fun _ : Int => Nat) (nIndex : Int) :
    (indices.foldl (fun pool nIndex => pool.erase nIndex) pool).lookup nIndex =
      if nIndex ∈ indices then none else pool.lookup nIndex := by
  induction indices generalizing pool with
  | nil => rw [List.foldl_nil, if_neg List.not_mem_nil]
  | cons index indices ih =>
      rw [List.foldl_cons, ih]
      by_cases same : nIndex = index
      · rw [same, Finmap.lookup_erase, ite_self, if_pos List.mem_cons_self]
      · rw [Finmap.lookup_erase_ne same]
        simp only [List.mem_cons, same, false_or]

/-- All keys are made anew. -/
theorem Sound.newKeyPool (sound : Sound state) (nobody : ∀ user, state.held user = none) :
    Sound { state with wallet := state.wallet.newKeyPool keypoolArg } := by
  have unheld : ∀ {user taken}, state.held user ≠ some taken := fun held =>
    nomatch (nobody _).symm.trans held
  generalize cleared : ({ state.wallet with
    setKeyPool := ∅
    pool := (state.wallet.setKeyPool.sort (· ≤ ·)).foldl (fun pool nIndex => pool.erase nIndex)
      state.wallet.pool } : KeyPoolWallet) = wallet
  have none_ : ∀ nIndex, wallet.pool.lookup nIndex = none := by
    intro nIndex
    rw [← cleared, lookup_erases]
    split
    · rfl
    · rename_i outside
      rw [Finmap.lookup_eq_none, sound.recorded]
      rintro (inside | ⟨user, key, taken⟩)
      · exact outside ((Finset.mem_sort _).mpr inside)
      · exact unheld taken
  have empty : Sound { state with wallet } := by
    refine ⟨?_, fun taken => absurd taken unheld, sound.once, ?_, ?_, ?_, sound.apart⟩
    · intro nIndex
      have inside : nIndex ∉ wallet.setKeyPool := by
        rw [← cleared]
        exact Finset.notMem_empty nIndex
      exact ⟨fun mem => absurd mem (Finmap.lookup_eq_none.mp (none_ nIndex)),
        fun where_ => where_.elim (absurd · inside) fun ⟨_, _, taken⟩ => absurd taken unheld⟩
    · intro first second key found
      exact nomatch (none_ first).symm.trans found
    · intro nIndex key found
      exact nomatch (none_ nIndex).symm.trans found
    · intro key mem
      refine ⟨?_, fun nIndex found => nomatch (none_ nIndex).symm.trans found⟩
      rw [← cleared]
      exact (sound.gone key mem).1
  rw [KeyPoolWallet.newKeyPool, cleared]
  split
  · exact empty
  · -- After some rounds the records are those of the first indices.
    refine (Foundation.Limbs.foldl_range_induct (motive := fun i after =>
      Sound { state with wallet := after } ∧ ∀ nIndex ∈ after.pool, nIndex ≤ (i : Int)) ?_ ?_).1
    · refine ⟨empty, ?_⟩
      intro nIndex mem
      exact absurd mem (Finmap.lookup_eq_none.mp (none_ nIndex))
    · intro i after _ ⟨sound', below⟩
      have fresh : (i : Int) + 1 ∉ after.pool := fun mem => by
        have small := below _ mem
        omega
      refine ⟨sound'.writePool fresh, ?_⟩
      intro nIndex mem
      rcases Finmap.mem_insert.mp mem with same | old
      · rw [same]
        exact Int.le_refl _
      · have small := below _ old
        push_cast
        omega

/-! ## Keys are given to users -/

/-- What a reservation can come to: there is no key, or the smallest index leaves the set. -/
theorem Sound.reserve_cases (keypoolArg : Int) (sound : Sound state) :
    let top := state.wallet.topped keypoolArg
    (top.setKeyPool = ∅ ∧ state.wallet.reserveKeyFromKeyPool keypoolArg = (top, .empty)) ∨
      ∃ nIndex ∈ top.setKeyPool, ∃ key, top.pool.lookup nIndex = some key ∧
        (∀ other ∈ top.setKeyPool, nIndex ≤ other) ∧
        state.wallet.reserveKeyFromKeyPool keypoolArg =
          ({ top with setKeyPool := top.setKeyPool.erase nIndex }, .key nIndex key) := by
  intro top
  have sound' : Sound { state with wallet := top } := sound.topped
  rw [reserveKeyFromKeyPool]
  change _ ∨ ∃ nIndex ∈ top.setKeyPool, _
  by_cases some_ : top.setKeyPool.Nonempty
  · right
    have mem := top.setKeyPool.min'_mem some_
    obtain ⟨key, found⟩ := Finmap.mem_iff.mp ((sound'.recorded _).mpr (.inl mem))
    refine ⟨_, mem, key, found, fun other inside => top.setKeyPool.min'_le other inside, ?_⟩
    have made : key < top.nGenerated := sound'.known found
    simp only [top] at some_ found made ⊢
    simp only [dif_pos some_, found, if_pos made]
  · left
    refine ⟨Finset.not_nonempty_iff_eq_empty.mp some_, ?_⟩
    exact dif_neg some_

/-- Another index of the set, above its smallest. -/
theorem exists_later {setKeyPool : Finset Int} {nIndex : Int} (mem : nIndex ∈ setKeyPool)
    (least : ∀ other ∈ setKeyPool, nIndex ≤ other) (more : setKeyPool.card ≠ 1) :
    ∃ later ∈ setKeyPool.erase nIndex, nIndex < later := by
  have positive := Finset.card_pos.mpr ⟨nIndex, mem⟩
  have rest : 0 < (setKeyPool.erase nIndex).card := by
    rw [Finset.card_erase_of_mem mem]
    omega
  obtain ⟨later, inside⟩ := Finset.card_pos.mp rest
  have different := Finset.ne_of_mem_erase inside
  have above := least later (Finset.mem_of_mem_erase inside)
  exact ⟨later, inside, by omega⟩

/-- What was below an index of the set is below one that stays. -/
theorem below_of_erase {setKeyPool : Finset Int} {nIndex other : Int} (mem : nIndex ∈ setKeyPool)
    (least : ∀ other ∈ setKeyPool, nIndex ≤ other) (more : setKeyPool.card ≠ 1)
    (below : ∃ later ∈ setKeyPool, other < later) :
    ∃ later ∈ setKeyPool.erase nIndex, other < later := by
  obtain ⟨later, inside, small⟩ := below
  obtain ⟨last, stays, above⟩ := exists_later mem least more
  by_cases same : later = nIndex
  · exact ⟨last, stays, by omega⟩
  · exact ⟨later, Finset.mem_erase.mpr ⟨same, inside⟩, small⟩

/-- **A key is reserved.** -/
theorem Sound.hold (sound : Sound state) {user : Nat} (free : state.held user = none) {nIndex : Int}
    {key : Nat} (mem : nIndex ∈ state.wallet.setKeyPool)
    (found : state.wallet.pool.lookup nIndex = some key)
    (least : ∀ other ∈ state.wallet.setKeyPool, nIndex ≤ other)
    (more : state.wallet.setKeyPool.card ≠ 1) :
    Sound { state with
      wallet := { state.wallet with setKeyPool := state.wallet.setKeyPool.erase nIndex }
      held := Function.update state.held user (some (nIndex, key)) } := by
  have others : ∀ {user' nIndex' key'}, user' ≠ user →
      Function.update state.held user (some (nIndex, key)) user' = some (nIndex', key') →
      state.held user' = some (nIndex', key') := fun different taken =>
    (Function.update_of_ne different _ _).symm.trans taken
  have own : ∀ {nIndex' key'},
      Function.update state.held user (some (nIndex, key)) user = some (nIndex', key') →
      nIndex = nIndex' ∧ key = key' := fun taken => by
    rw [Function.update_self] at taken
    exact Prod.ext_iff.mp (Option.some.inj taken)
  refine ⟨?_, ?_, ?_, sound.keys, sound.known, sound.gone, sound.apart⟩
  · intro other
    rw [sound.recorded other, Finset.mem_erase]
    constructor
    · rintro (inside | ⟨user', key', taken⟩)
      · by_cases same : other = nIndex
        · rw [same]
          exact .inr ⟨user, key, Function.update_self ..⟩
        · exact .inl ⟨same, inside⟩
      · have different : user' ≠ user := by
          rintro rfl
          exact nomatch free.symm.trans taken
        exact .inr ⟨user', key', (Function.update_of_ne different _ _).trans taken⟩
    · rintro (⟨-, inside⟩ | ⟨user', key', taken⟩)
      · exact .inl inside
      · by_cases same : user' = user
        · subst same
          exact .inl ((own taken).1 ▸ mem)
        · exact .inr ⟨user', key', others same taken⟩
  · intro user' nIndex' key' taken
    by_cases same : user' = user
    · subst same
      obtain ⟨rfl, rfl⟩ := own taken
      exact ⟨found, Finset.notMem_erase _ _, exists_later mem least more⟩
    · obtain ⟨found', outside, below⟩ := sound.reserved (others same taken)
      exact ⟨found', fun inside => outside (Finset.mem_of_mem_erase inside),
        below_of_erase mem least more below⟩
  · intro user₁ user₂ nIndex' key₁ key₂ taken₁ taken₂
    by_cases same₁ : user₁ = user <;> by_cases same₂ : user₂ = user
    · rw [same₁, same₂]
    · subst same₁
      have outside := (sound.reserved (others same₂ taken₂)).2.1
      exact absurd ((own taken₁).1 ▸ mem) outside
    · subst same₂
      have outside := (sound.reserved (others same₁ taken₁)).2.1
      exact absurd ((own taken₂).1 ▸ mem) outside
    · exact sound.once (others same₁ taken₁) (others same₂ taken₂)

/-- What holds for the others when a user holds nothing any more. -/
theorem held_of_update_none {user user' : Nat} {taken : Int × Nat}
    (holds : Function.update state.held user none user' = some taken) :
    user' ≠ user ∧ state.held user' = some taken := by
  by_cases same : user' = user
  · subst same
    rw [Function.update_self] at holds
    cases holds
  · exact ⟨same, (Function.update_of_ne same _ _).symm.trans holds⟩

/-- What is found after a record is erased is another record. -/
theorem lookup_of_erase {pool : Finmap fun _ : Int => Nat} {nIndex other : Int} {key : Nat}
    (there : (pool.erase nIndex).lookup other = some key) :
    other ≠ nIndex ∧ pool.lookup other = some key := by
  by_cases same : other = nIndex
  · rw [same, Finmap.lookup_erase] at there
    cases there
  · exact ⟨same, (Finmap.lookup_erase_ne same).symm.trans there⟩

/-- **A reserved key is kept.** -/
theorem Sound.keep (sound : Sound state) {user key : Nat} {nIndex : Int}
    (taken : state.held user = some (nIndex, key)) :
    Sound { state with
      wallet := state.wallet.keepKey nIndex
      held := Function.update state.held user none
      used := key :: state.used } := by
  obtain ⟨found, outside, -⟩ := sound.reserved taken
  refine ⟨?_, ?_, ?_, ?_, fun there => sound.known (lookup_of_erase there).2, ?_, ?_⟩
  · intro other
    simp only [KeyPoolWallet.keepKey, Finmap.mem_erase, sound.recorded other]
    constructor
    · rintro ⟨different, inside | ⟨user', key', taken'⟩⟩
      · exact .inl inside
      · have apart : user' ≠ user := by
          rintro rfl
          exact different (congrArg Prod.fst (Option.some.inj (taken'.symm.trans taken)))
        exact .inr ⟨user', key', (Function.update_of_ne apart _ _).trans taken'⟩
    · rintro (inside | ⟨user', key', taken'⟩)
      · exact ⟨fun same => outside (same ▸ inside), .inl inside⟩
      · obtain ⟨apart, holds⟩ := held_of_update_none taken'
        exact ⟨fun same => apart (sound.once (same ▸ holds) taken), .inr ⟨user', key', holds⟩⟩
  · intro user' other key' taken'
    obtain ⟨apart, holds⟩ := held_of_update_none taken'
    obtain ⟨found', rest⟩ := sound.reserved holds
    refine ⟨?_, rest⟩
    have different : other ≠ nIndex := fun same => apart (sound.once (same ▸ holds) taken)
    exact (Finmap.lookup_erase_ne different).trans found'
  · intro user₁ user₂ other key₁ key₂ taken₁ taken₂
    exact sound.once (held_of_update_none taken₁).2 (held_of_update_none taken₂).2
  · intro first second key' there there'
    exact sound.keys (lookup_of_erase there).2 (lookup_of_erase there').2
  · intro key' mem
    rcases List.mem_cons.mp mem with rfl | old
    · refine ⟨sound.known found, fun other there => ?_⟩
      exact (lookup_of_erase there).1 (sound.keys (lookup_of_erase there).2 found)
    · exact ⟨(sound.gone key' old).1, fun other there =>
        (sound.gone key' old).2 other (lookup_of_erase there).2⟩
  · refine List.nodup_cons.mpr ⟨?_, sound.apart⟩
    intro old
    exact (sound.gone key old).2 nIndex found

/-- **A reserved key comes back.** -/
theorem Sound.giveBack (sound : Sound state) {user key : Nat} {nIndex : Int}
    (taken : state.held user = some (nIndex, key)) :
    Sound { state with
      wallet := state.wallet.returnKey nIndex
      held := Function.update state.held user none } := by
  refine ⟨?_, ?_, ?_, sound.keys, sound.known, sound.gone, sound.apart⟩
  · intro other
    simp only [KeyPoolWallet.returnKey, Finset.mem_insert, sound.recorded other]
    constructor
    · rintro (inside | ⟨user', key', taken'⟩)
      · exact .inl (.inr inside)
      · by_cases same : user' = user
        · subst same
          exact .inl (.inl (congrArg Prod.fst (Option.some.inj (taken'.symm.trans taken))))
        · exact .inr ⟨user', key', (Function.update_of_ne same _ _).trans taken'⟩
    · rintro ((rfl | inside) | ⟨user', key', taken'⟩)
      · exact .inr ⟨user, key, taken⟩
      · exact .inl inside
      · exact .inr ⟨user', key', (held_of_update_none taken').2⟩
  · intro user' other key' taken'
    obtain ⟨apart, holds⟩ := held_of_update_none taken'
    obtain ⟨found, outside, later, inside, below⟩ := sound.reserved holds
    refine ⟨found, ?_, later, Finset.mem_insert_of_mem inside, below⟩
    intro mem
    rcases Finset.mem_insert.mp mem with same | inside
    · exact apart (sound.once (same ▸ holds) taken)
    · exact outside inside
  · intro user₁ user₂ other key₁ key₂ taken₁ taken₂
    exact sound.once (held_of_update_none taken₁).2 (held_of_update_none taken₂).2

/-- **A key is given away at once.** -/
theorem Sound.spend (sound : Sound state) {nIndex : Int} {key : Nat}
    (mem : nIndex ∈ state.wallet.setKeyPool)
    (found : state.wallet.pool.lookup nIndex = some key)
    (least : ∀ other ∈ state.wallet.setKeyPool, nIndex ≤ other)
    (careful : state.wallet.setKeyPool.card = 1 → ∀ user, state.held user = none) :
    Sound { state with
      wallet := { state.wallet with
        setKeyPool := state.wallet.setKeyPool.erase nIndex
        pool := state.wallet.pool.erase nIndex }
      used := key :: state.used } := by
  have different : ∀ {user other key'}, state.held user = some (other, key') →
      other ≠ nIndex := fun taken same => (sound.reserved taken).2.1 (same ▸ mem)
  refine ⟨?_, ?_, sound.once, ?_, fun there => sound.known (lookup_of_erase there).2, ?_, ?_⟩
  · intro other
    simp only [Finmap.mem_erase, Finset.mem_erase, sound.recorded other]
    constructor
    · rintro ⟨away, inside | taken⟩
      · exact .inl ⟨away, inside⟩
      · exact .inr taken
    · rintro (⟨away, inside⟩ | ⟨user, key', taken⟩)
      · exact ⟨away, .inl inside⟩
      · exact ⟨different taken, .inr ⟨user, key', taken⟩⟩
  · intro user other key' taken
    obtain ⟨found', outside, below⟩ := sound.reserved taken
    refine ⟨(Finmap.lookup_erase_ne (different taken)).trans found',
      fun inside => outside (Finset.mem_of_mem_erase inside), below_of_erase mem least ?_ below⟩
    intro last
    exact nomatch (careful last user).symm.trans taken
  · intro first second key' there there'
    exact sound.keys (lookup_of_erase there).2 (lookup_of_erase there').2
  · intro key' used
    rcases List.mem_cons.mp used with rfl | old
    · refine ⟨sound.known found, fun other there => ?_⟩
      exact (lookup_of_erase there).1 (sound.keys (lookup_of_erase there).2 found)
    · exact ⟨(sound.gone key' old).1, fun other there =>
        (sound.gone key' old).2 other (lookup_of_erase there).2⟩
  · refine List.nodup_cons.mpr ⟨?_, sound.apart⟩
    intro old
    exact (sound.gone key old).2 nIndex found

/-- A key is made for a user, and no record of it. -/
theorem Sound.generate (sound : Sound state) :
    Sound { state with
      wallet := { state.wallet with nGenerated := state.wallet.nGenerated + 1 }
      used := state.wallet.nGenerated :: state.used } := by
  refine ⟨sound.recorded, sound.reserved, sound.once, sound.keys,
    fun found => Nat.lt_succ_of_lt (sound.known found), ?_, ?_⟩
  · intro key mem
    rcases List.mem_cons.mp mem with rfl | old
    · exact ⟨Nat.lt_succ_self _, fun nIndex found =>
        absurd (sound.known found) (Nat.lt_irrefl _)⟩
    · exact ⟨Nat.lt_succ_of_lt (sound.gone key old).1, (sound.gone key old).2⟩
  · exact List.nodup_cons.mpr ⟨fun old => absurd (sound.gone _ old).1 (Nat.lt_irrefl _),
      sound.apart⟩

/-- The set is read from the records, and reservations are forgotten. -/
theorem Sound.restart (sound : Sound state) (locked : Bool) :
    Sound { state with
      wallet := { state.wallet with setKeyPool := state.wallet.pool.keys, locked }
      held := fun _ => none } := by
  refine ⟨?_, ?_, ?_, sound.keys, sound.known, sound.gone, sound.apart⟩
  · intro nIndex
    simp only [Finmap.mem_keys, reduceCtorEq, exists_false, or_false]
  · exact fun taken => nomatch taken
  · exact fun taken => nomatch taken

/-! ## Runs -/

/-- **Every operation keeps the invariant**, and nothing is thrown. -/
theorem Sound.step (sound : Sound state) (op : KeyPoolOp) (careful : Careful keypoolArg state op) :
    Sound (state.step keypoolArg op) ∧ (state.step keypoolArg op).threw = state.threw := by
  cases op with
  | topUpKeyPool kpSize => exact ⟨sound.topUpKeyPool kpSize, rfl⟩
  | newKeyPool => exact ⟨sound.newKeyPool careful, rfl⟩
  | setLocked locked =>
      exact ⟨⟨sound.recorded, sound.reserved, sound.once, sound.keys, sound.known, sound.gone,
        sound.apart⟩, rfl⟩
  | restart locked => exact ⟨sound.restart locked, rfl⟩
  | getReservedKey user =>
      rw [KeyPoolState.step]
      split
      · exact ⟨sound, rfl⟩
      · rename_i free
        have top : Sound { state with wallet := state.wallet.topped keypoolArg } := sound.topped
        rcases sound.reserve_cases keypoolArg with
          ⟨-, none_⟩ | ⟨nIndex, mem, key, found, least, reserved⟩
        · rw [none_]
          exact ⟨top, rfl⟩
        · rw [reserved]
          exact ⟨top.hold free mem found least (careful free), rfl⟩
  | keepKey user =>
      rw [KeyPoolState.step]
      split
      · exact ⟨sound, rfl⟩
      · rename_i taken
        exact ⟨sound.keep taken, rfl⟩
  | returnKey user =>
      rw [KeyPoolState.step]
      split
      · exact ⟨sound, rfl⟩
      · rename_i taken
        exact ⟨sound.giveBack taken, rfl⟩
  | getKeyFromPool =>
      have top : Sound { state with wallet := state.wallet.topped keypoolArg } := sound.topped
      rw [KeyPoolState.step]
      rcases sound.reserve_cases keypoolArg with
        ⟨-, none_⟩ | ⟨nIndex, mem, key, found, least, reserved⟩
      · rw [none_]
        dsimp only
        split
        · exact ⟨top, rfl⟩
        · exact ⟨top.generate, rfl⟩
      · rw [reserved]
        exact ⟨top.spend mem found least careful, rfl⟩
  | getOldestKeyPoolTime =>
      have top : Sound { state with wallet := state.wallet.topped keypoolArg } := sound.topped
      rw [KeyPoolState.step]
      rcases sound.reserve_cases keypoolArg with
        ⟨-, none_⟩ | ⟨nIndex, mem, key, found, least, reserved⟩
      · rw [none_]
        exact ⟨top, rfl⟩
      · rw [reserved]
        dsimp only
        rw [KeyPoolWallet.returnKey]
        simp only [Finset.insert_erase mem]
        exact ⟨top, trivial⟩

/-- A new wallet, without users. -/
def created (locked : Bool) : KeyPoolState where
  wallet := { setKeyPool := ∅, pool := ∅, nGenerated := 0, locked }
  held _ := none
  used := []
  threw := false

theorem sound_created (locked : Bool) : Sound (created locked) where
  recorded nIndex := by
    simp only [created, Finmap.notMem_empty, Finset.notMem_empty, reduceCtorEq, exists_false,
      or_false]
  reserved taken := nomatch taken
  once taken := nomatch taken
  keys found := nomatch (Finmap.lookup_empty _).symm.trans found
  known found := nomatch (Finmap.lookup_empty _).symm.trans found
  gone _ mem := nomatch mem
  apart := List.nodup_nil

/-- An unlocked wallet with room for a key has more than the one that is reserved. -/
theorem card_topped (unlocked : state.wallet.locked = false) (some_ : 1 ≤ keypoolArg)
    (small : keypoolArg < 2 ^ 32 - 1) :
    2 ≤ (state.wallet.topped keypoolArg).setKeyPool.card := by
  have room := le_card_fill (targetRoom keypoolArg 0) state.wallet
  have size : targetRoom keypoolArg 0 = keypoolArg.toNat + 1 := by
    simp only [targetRoom, if_neg (Nat.lt_irrefl 0)]
    omega
  simp only [topped, KeyPoolWallet.topUpKeyPool, unlocked, Bool.false_eq_true, if_false]
  omega

/-- While the wallet is unlocked, users may do what they like, but for making all keys anew. -/
theorem careful_of_unlocked (unlocked : state.wallet.locked = false) (some_ : 1 ≤ keypoolArg)
    (small : keypoolArg < 2 ^ 32 - 1) {op : KeyPoolOp} (kept : op ≠ .newKeyPool) :
    Careful keypoolArg state op := by
  have more := card_topped unlocked some_ small
  cases op with
  | newKeyPool => exact absurd rfl kept
  | getReservedKey user => exact fun _ => by omega
  | getKeyFromPool => exact fun last => by omega
  | _ => trivial

/-- **No key is given to two users.** In every careful run of a new wallet nothing is thrown, all
keys that were given away are different, and a key of the set or of a reservation has its record and
is neither given away nor reserved by another. -/
theorem keyPool_sound (keypoolArg : Int) (locked : Bool) {ops : List KeyPoolOp}
    (careful : Foundation.Run.AllSteps (step keypoolArg) (Careful keypoolArg) (created locked)
      ops) :
    ∀ state ∈ Foundation.Run.states (step keypoolArg) (created locked) ops,
      state.threw = false ∧ state.used.Nodup ∧
      (∀ nIndex ∈ state.wallet.setKeyPool, ∃ key ∉ state.used,
        state.wallet.pool.lookup nIndex = some key ∧
          ∀ user nIndex', state.held user ≠ some (nIndex', key)) ∧
      ∀ user nIndex key, state.held user = some (nIndex, key) →
        key ∉ state.used ∧ state.wallet.pool.lookup nIndex = some key ∧
          ∀ user' nIndex', state.held user' = some (nIndex', key) → user' = user := by
  have keeps : ∀ state op, Careful keypoolArg state op → Sound state ∧ state.threw = false →
      Sound (state.step keypoolArg op) ∧ (state.step keypoolArg op).threw = false :=
    fun state op careful ⟨sound, calm⟩ =>
      have next := sound.step op careful
      ⟨next.1, next.2.trans calm⟩
  intro state mem
  obtain ⟨sound, calm⟩ := Foundation.Run.invariant_states_of_steps keeps
    ⟨sound_created locked, rfl⟩ careful state mem
  refine ⟨calm, sound.apart, ?_, ?_⟩
  · intro nIndex inside
    obtain ⟨key, found⟩ := Finmap.mem_iff.mp ((sound.recorded nIndex).mpr (.inl inside))
    refine ⟨key, fun old => (sound.gone key old).2 nIndex found, found, ?_⟩
    intro user nIndex' taken
    obtain ⟨found', outside, -⟩ := sound.reserved taken
    exact outside (sound.keys found' found ▸ inside)
  · intro user nIndex key taken
    obtain ⟨found, -⟩ := sound.reserved taken
    refine ⟨fun old => (sound.gone key old).2 nIndex found, found, ?_⟩
    intro user' nIndex' taken'
    have same := sound.keys (sound.reserved taken').1 found
    exact sound.once taken' (same ▸ taken)

/-- A key is reserved and kept, and the pool is filled again. -/
theorem keyPool_sound_keep :
    let kept := [.getReservedKey 0, .keepKey 0, .topUpKeyPool 5].foldl (step 1) (created false)
    kept.used ≠ [] ∧ kept.threw = false ∧ kept.used.Nodup := by
  have careful : Foundation.Run.AllSteps (step 1) (Careful 1) (created false)
      [.getReservedKey 0, .keepKey 0, .topUpKeyPool 5] :=
    ⟨careful_of_unlocked rfl (by decide) (by decide) nofun, trivial, trivial, trivial⟩
  have sound := keyPool_sound 1 false careful _ (Foundation.Run.foldl_mem_states _ _)
  exact ⟨by decide +kernel, sound.1, sound.2.1⟩

end KeyPoolState

end GiantCore
