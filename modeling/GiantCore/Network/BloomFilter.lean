import Mathlib.Tactic.Ring
import GiantCore.Foundation.Run

/-! # Bloom filters

`CBloomFilter` of `bloom.cpp`. Two flags shorten the look into the bits, and the operations keep
them only in part: a filter from a peer is flagged full whatever its bits are, `Merge` leaves both
flags as they are, and merging with a filter that matches everything writes into an empty vector.
Without these steps no key is lost (`noFalseNegatives_of_run`).
-/

namespace GiantCore

/-! ## The hash -/

/-- `ROTL32`. -/
def rotl32 (x : UInt32) (r : UInt32) : UInt32 := (x <<< r) ||| (x >>> (32 - r))

/-- The factors of one block. -/
def murmurMix (k1 : UInt32) : UInt32 := rotl32 (k1 * 0xcc9e2d51) 15 * 0x1b873593

/-- The body of `MurmurHash3`, and the bytes behind its last block. -/
def murmurBody (h1 : UInt32) : List UInt8 → UInt32 × List UInt8
  | a :: b :: c :: d :: rest =>
      let k1 := a.toUInt32 ||| (b.toUInt32 <<< 8) ||| (c.toUInt32 <<< 16) ||| (d.toUInt32 <<< 24)
      murmurBody (rotl32 (h1 ^^^ murmurMix k1) 13 * 5 + 0xe6546b64) rest
  | tail => (h1, tail)

/-- The tail. -/
def murmurTail (h1 : UInt32) : List UInt8 → UInt32
  | [a] => h1 ^^^ murmurMix a.toUInt32
  | [a, b] => h1 ^^^ murmurMix ((b.toUInt32 <<< 8) ^^^ a.toUInt32)
  | [a, b, c] => h1 ^^^ murmurMix ((c.toUInt32 <<< 16) ^^^ (b.toUInt32 <<< 8) ^^^ a.toUInt32)
  | _ => h1

/-- The finalization. -/
def murmurFinish (h1 : UInt32) : UInt32 :=
  let h1 := (h1 ^^^ (h1 >>> 16)) * 0x85ebca6b
  let h1 := (h1 ^^^ (h1 >>> 13)) * 0xc2b2ae35
  h1 ^^^ (h1 >>> 16)

/-- `MurmurHash3`. -/
def murmurHash3 (nHashSeed : UInt32) (vDataToHash : List UInt8) : UInt32 :=
  let (h1, tail) := murmurBody nHashSeed vDataToHash
  murmurFinish (murmurTail h1 tail ^^^ UInt32.ofNat vDataToHash.length)

/-! ## The bits -/

/-- The bit of an index in its byte. -/
def bitMask (nIndex : Nat) : UInt8 := 1 <<< UInt8.ofNat (nIndex % 8)

/-- A bit is set. -/
def setBit (vData : List UInt8) (nIndex : Nat) : List UInt8 :=
  vData.modify (nIndex / 8) fun byte => byte ||| bitMask nIndex

/-- A bit is tested. -/
def hasBit (vData : List UInt8) (nIndex : Nat) : Bool :=
  ((vData[nIndex / 8]?).getD 0) &&& bitMask nIndex != 0

/-- Every bit of the one is in the other. -/
def Covers (vData larger : List UInt8) : Prop :=
  ∀ nIndex, hasBit vData nIndex = true → hasBit larger nIndex = true

/-- Bits that are kept twice are kept. -/
theorem Covers.trans {first second third : List UInt8} (before : Covers first second)
    (after : Covers second third) : Covers first third :=
  fun nIndex here => after nIndex (before nIndex here)

/-- A mask has its bit. -/
theorem bitMask_ne_zero (nIndex : Nat) : bitMask nIndex ≠ 0 := by
  have all : ∀ k < 8, (1 <<< UInt8.ofNat k : UInt8) ≠ 0 := by decide
  exact all (nIndex % 8) (Nat.mod_lt _ (by omega))

/-- A bit that is set is there. -/
theorem or_and_mask (byte mask : UInt8) : (byte ||| mask) &&& mask = mask := by
  apply UInt8.toBitVec_inj.mp
  ext i
  simp only [UInt8.toBitVec_and, UInt8.toBitVec_or, BitVec.getElem_and, BitVec.getElem_or]
  cases mask.toBitVec[i] <;> simp

/-- More bits leave a bit that is set. -/
theorem and_mask_ne_zero_of_or {byte mask : UInt8} (other : UInt8) (set : byte &&& mask ≠ 0) :
    (byte ||| other) &&& mask ≠ 0 := by
  have split : (byte ||| other) &&& mask = (byte &&& mask) ||| (other &&& mask) := by
    apply UInt8.toBitVec_inj.mp
    ext i
    simp [Bool.and_or_distrib_right]
  rw [split, ne_eq, UInt8.or_eq_zero_iff, not_and_or]
  exact Or.inl set

/-- The bit that is set is there. -/
theorem hasBit_setBit {vData : List UInt8} {nIndex : Nat} (inside : nIndex / 8 < vData.length) :
    hasBit (setBit vData nIndex) nIndex = true := by
  rw [hasBit, setBit, List.getElem?_modify_eq, List.getElem?_eq_getElem inside]
  simp [or_and_mask, bitMask_ne_zero]

/-- Setting a bit keeps the others. -/
theorem covers_setBit (vData : List UInt8) (nIndex : Nat) :
    Covers vData (setBit vData nIndex) := by
  intro other here
  rw [hasBit, bne_iff_ne] at here ⊢
  rw [setBit]
  by_cases same : nIndex / 8 = other / 8
  · rw [← same] at here ⊢
    rw [List.getElem?_modify_eq]
    cases byte : vData[nIndex / 8]? with
    | none =>
        rw [byte] at here
        simp at here
    | some byte' =>
        rw [byte] at here
        exact and_mask_ne_zero_of_or _ here
  · rw [List.getElem?_modify_ne _ _ same]
    exact here

/-- The bits of both filters. -/
def orBits (vData other : List UInt8) : List UInt8 := List.zipWith (· ||| ·) vData other

/-- Merging keeps the bits of the first filter. -/
theorem covers_orBits_left {vData other : List UInt8} (same : other.length = vData.length) :
    Covers vData (orBits vData other) := by
  intro nIndex here
  rw [hasBit, bne_iff_ne] at here ⊢
  rw [orBits, List.getElem?_zipWith]
  by_cases inside : nIndex / 8 < vData.length
  · rw [List.getElem?_eq_getElem inside, List.getElem?_eq_getElem (same ▸ inside)]
    rw [List.getElem?_eq_getElem inside] at here
    exact and_mask_ne_zero_of_or _ here
  · rw [List.getElem?_eq_none (by omega)] at here
    simp at here

/-- Merging keeps the bits of the second filter. -/
theorem covers_orBits_right {vData other : List UInt8} (same : other.length = vData.length) :
    Covers other (orBits vData other) := by
  have swapped : orBits vData other = orBits other vData := by
    unfold orBits
    rw [List.zipWith_comm]
    simp [UInt8.or_comm]
  rw [swapped]
  exact covers_orBits_left same.symm

/-- All bytes are zero. -/
def allZero (vData : List UInt8) : Bool := vData.all (· == 0)

/-- An empty filter has no bit. -/
theorem hasBit_of_allZero {vData : List UInt8} (zero : allZero vData = true) (nIndex : Nat) :
    hasBit vData nIndex = false := by
  unfold hasBit
  cases byte : vData[nIndex / 8]? with
  | none => simp
  | some value =>
      have equal := eq_of_beq (List.all_eq_true.mp zero value (List.mem_of_getElem? byte))
      simp [equal]

/-! ## The filter -/

/-- `CBloomFilter`. -/
structure CBloomFilter where
  vData : List UInt8
  isFull : Bool
  isEmpty : Bool
  nHashFuncs : Nat
  nTweak : UInt32
  nFlags : UInt8
  deriving DecidableEq, Repr

namespace CBloomFilter

/-- A filter that is deserialized. The flags are those of the default constructor. -/
def deserialized (vData : List UInt8) (nHashFuncs : Nat) (nTweak : UInt32) (nFlags : UInt8) :
    CBloomFilter :=
  { vData, isFull := true, isEmpty := false, nHashFuncs, nTweak, nFlags }

variable (filter : CBloomFilter)

/-- `IsWithinSizeConstraints`. -/
def isWithinSizeConstraints : Bool :=
  decide (filter.vData.length ≤ 36000) && decide (filter.nHashFuncs ≤ 50)

/-- `Hash`, or nothing where it reduces modulo zero. -/
def hash (nHashNum : Nat) (vDataToHash : List UInt8) : Option Nat :=
  if filter.vData.length * 8 = 0 then none
  else some ((murmurHash3 (UInt32.ofNat nHashNum * 0xFBA4C795 + filter.nTweak)
    vDataToHash).toNat % (filter.vData.length * 8))

/-- One round of `insert`. -/
def insertRound (vKey : List UInt8) (vData : List UInt8) (i : Nat) : Option (List UInt8) :=
  (filter.hash i vKey).map (setBit vData)

/-- `insert`. -/
def insert (vKey : List UInt8) : Option CBloomFilter :=
  if filter.isFull then some filter
  else ((List.range filter.nHashFuncs).foldlM (filter.insertRound vKey) filter.vData).map
    fun vData => { filter with vData, isEmpty := false }

/-- The loop of `contains`. -/
def containsRounds (vKey : List UInt8) : List Nat → Option Bool
  | [] => some true
  | i :: rest =>
      match filter.hash i vKey with
      | none => none
      | some nIndex => if hasBit filter.vData nIndex then containsRounds vKey rest else some false

/-- `contains`. -/
def contains (vKey : List UInt8) : Option Bool :=
  if filter.isFull then some true
  else if filter.isEmpty then some false
  else filter.containsRounds vKey (List.range filter.nHashFuncs)

/-- `clear`. -/
def clear : CBloomFilter :=
  { filter with
    vData := List.replicate filter.vData.length 0, isFull := false, isEmpty := true }

/-- `setNotFull`. -/
def setNotFull : CBloomFilter := { filter with isFull := false }

/-- `MatchesAll`. -/
def matchesAll : Bool := filter.vData.all (· == 0xff)

/-- `Merge`, or nothing where it writes behind the end of an empty vector. -/
def merge (other : CBloomFilter) : Option (Bool × CBloomFilter) :=
  if !filter.matchesAll && !other.matchesAll then
    if other.vData.length = filter.vData.length ∧ other.nHashFuncs = filter.nHashFuncs ∧
        other.nTweak = filter.nTweak then
      some (true, { filter with vData := orBits filter.vData other.vData })
    else some (false, filter)
  -- `this->vData.clear()`, and then `this->vData[0] = 0xff`
  else none

/-- `UpdateEmptyFull`. -/
def updateEmptyFull : CBloomFilter :=
  { filter with
    isFull := filter.vData.all (· == 0xff)
    isEmpty := allZero filter.vData }

/-! ## One operation -/

/-- All bits of a key are set. -/
def HasKey (vKey : List UInt8) : Prop :=
  ∀ i < filter.nHashFuncs, ∃ nIndex, filter.hash i vKey = some nIndex ∧
    hasBit filter.vData nIndex = true

/-- Both filters have the same size, hash functions and tweak. -/
def SameShape (other : CBloomFilter) : Prop :=
  other.vData.length = filter.vData.length ∧ other.nHashFuncs = filter.nHashFuncs ∧
    other.nTweak = filter.nTweak

instance (other : CBloomFilter) : Decidable (filter.SameShape other) :=
  inferInstanceAs (Decidable (_ ∧ _ ∧ _))

variable {filter} {other : CBloomFilter} {vKey : List UInt8}

/-- Filters of the same shape have the same hashes. -/
theorem hash_eq (same : filter.SameShape other) (i : Nat) (vKey : List UInt8) :
    other.hash i vKey = filter.hash i vKey := by
  unfold hash
  rw [same.1, same.2.2]

/-- A hash lies inside the bits. -/
theorem hash_isSome (size : filter.vData ≠ []) (i : Nat) (vKey : List UInt8) :
    ∃ nIndex, filter.hash i vKey = some nIndex ∧ nIndex / 8 < filter.vData.length := by
  have positive : 0 < filter.vData.length := List.length_pos_iff.mpr size
  have below := Nat.mod_lt (murmurHash3 (UInt32.ofNat i * 0xFBA4C795 + filter.nTweak) vKey).toNat
    (show 0 < filter.vData.length * 8 by omega)
  unfold hash
  rw [if_neg (by omega)]
  exact ⟨_, rfl, by omega⟩

/-- A filter that keeps the bits keeps the key. -/
theorem HasKey.of_covers (has : filter.HasKey vKey) (same : filter.SameShape other)
    (covers : Covers filter.vData other.vData) : other.HasKey vKey := by
  intro i small
  rw [same.2.1] at small
  obtain ⟨nIndex, hashed, set⟩ := has i small
  exact ⟨nIndex, (hash_eq same i vKey).trans hashed, covers nIndex set⟩

/-- A key is reported where all its bits are set. -/
theorem containsRounds_eq_true_iff (rounds : List Nat) :
    filter.containsRounds vKey rounds = some true ↔
      ∀ i ∈ rounds, ∃ nIndex, filter.hash i vKey = some nIndex ∧
        hasBit filter.vData nIndex = true := by
  induction rounds with
  | nil => simp [containsRounds]
  | cons i rest ih =>
      rw [containsRounds, List.forall_mem_cons, ← ih]
      cases hashed : filter.hash i vKey with
      | none => simp
      | some nIndex => cases set : hasBit filter.vData nIndex <;> simp [set]

/-- With bits the answer is defined. -/
theorem containsRounds_isSome (size : filter.vData ≠ []) (rounds : List Nat) :
    (filter.containsRounds vKey rounds).isSome := by
  induction rounds with
  | nil => rfl
  | cons i rest ih =>
      obtain ⟨nIndex, hashed, -⟩ := hash_isSome size i vKey
      rw [containsRounds, hashed]
      dsimp only
      split
      · exact ih
      · rfl

/-- **When a key is reported.** -/
theorem contains_eq_true_iff :
    filter.contains vKey = some true ↔
      filter.isFull = true ∨ (filter.isEmpty = false ∧ filter.HasKey vKey) := by
  unfold contains HasKey
  cases filter.isFull with
  | true => simp
  | false =>
      cases filter.isEmpty with
      | true => simp
      | false => simp [containsRounds_eq_true_iff]

/-- `contains` reduces modulo zero only in a filter without bits. -/
theorem contains_isSome (usable : filter.isFull = true ∨ filter.isEmpty = true ∨
    filter.nHashFuncs = 0 ∨ filter.vData ≠ []) (vKey : List UInt8) :
    (filter.contains vKey).isSome := by
  unfold contains
  split
  · rfl
  · rename_i partly
    split
    · rfl
    · rename_i some'
      rcases usable with full | empty | none | size
      · exact absurd full partly
      · exact absurd empty some'
      · rw [none]
        rfl
      · exact containsRounds_isSome size _

/-- The loop of `insert` sets the bits of the key, and leaves those that are set. -/
theorem foldlM_insertRound (vKey : List UInt8) (rounds : List Nat) {vData : List UInt8}
    (length : vData.length = filter.vData.length) (size : rounds = [] ∨ filter.vData ≠ []) :
    ∃ after, rounds.foldlM (filter.insertRound vKey) vData = some after ∧
      after.length = filter.vData.length ∧ Covers vData after ∧
      ∀ i ∈ rounds, ∃ nIndex, filter.hash i vKey = some nIndex ∧ hasBit after nIndex = true := by
  induction rounds generalizing vData with
  | nil => exact ⟨vData, rfl, length, fun _ here => here, by simp⟩
  | cons i rest ih =>
      have bits := size.resolve_left (List.cons_ne_nil i rest)
      obtain ⟨nIndex, hashed, inside⟩ := hash_isSome bits i vKey
      have next : (setBit vData nIndex).length = filter.vData.length := by
        rw [setBit, List.length_modify, length]
      obtain ⟨after, went, same, covers, set⟩ := ih next (Or.inr bits)
      refine ⟨after, ?_, same, (covers_setBit vData nIndex).trans covers, ?_⟩
      · rw [List.foldlM_cons, insertRound, hashed]
        exact went
      · rw [List.forall_mem_cons]
        exact ⟨⟨nIndex, hashed, covers nIndex (hasBit_setBit (length ▸ inside))⟩, set⟩

/-- **A key is inserted.** -/
theorem insert_eq_some (partly : filter.isFull = false)
    (size : filter.vData ≠ [] ∨ filter.nHashFuncs = 0) (vKey : List UInt8) :
    ∃ after, filter.insert vKey = some after ∧ filter.SameShape after ∧
      Covers filter.vData after.vData ∧ after.isFull = false ∧ after.isEmpty = false ∧
      after.HasKey vKey := by
  have rounds : List.range filter.nHashFuncs = [] ∨ filter.vData ≠ [] := by
    rcases size with bits | none
    · exact Or.inr bits
    · rw [none]
      exact Or.inl rfl
  obtain ⟨vData, went, length, covers, set⟩ :=
    foldlM_insertRound vKey (List.range filter.nHashFuncs) rfl rounds
  have same : filter.SameShape { filter with vData, isEmpty := false } := ⟨length, rfl, rfl⟩
  refine ⟨{ filter with vData, isEmpty := false }, ?_, same, covers, partly, rfl, ?_⟩
  · rw [insert, if_neg (by rw [partly]; exact Bool.false_ne_true), went]
    rfl
  · intro i small
    obtain ⟨nIndex, hashed, here⟩ := set i (List.mem_range.mpr small)
    exact ⟨nIndex, (hash_eq same i vKey).trans hashed, here⟩

/-- A filter that matches all has every key. -/
theorem hasKey_of_matchesAll (matches' : filter.matchesAll = true)
    (size : filter.vData ≠ [] ∨ filter.nHashFuncs = 0) : filter.HasKey vKey := by
  intro i small
  obtain ⟨nIndex, hashed, inside⟩ := hash_isSome (size.resolve_right (by omega)) i vKey
  refine ⟨nIndex, hashed, ?_⟩
  have full := eq_of_beq (List.all_eq_true.mp matches' _ (List.getElem_mem inside))
  have mask := or_and_mask 0xff (bitMask nIndex)
  rw [hasBit, List.getElem?_eq_getElem inside, Option.getD_some, full, bne_iff_ne]
  have all : (0xff : UInt8) ||| bitMask nIndex = 0xff := by
    apply UInt8.toBitVec_inj.mp
    simp only [UInt8.toBitVec_or]
    exact BitVec.allOnes_or
  rw [all] at mask
  rw [mask]
  exact bitMask_ne_zero nIndex

/-- What a merge does with the keys of both operands. -/
structure MergeKeeps (filter other : CBloomFilter) (returned : Bool) (after : CBloomFilter) :
    Prop where
  keys : returned = true → ∀ vKey, filter.contains vKey = some true ∨
    other.contains vKey = some true → after.contains vKey = some true
  unchanged : returned = false → after = filter
  shape : filter.SameShape after
  flags : after.isFull = filter.isFull ∧ after.isEmpty = filter.isEmpty

/-- **Two filters are merged.** -/
theorem merge_eq_some (partly : filter.matchesAll = false) (otherPartly : other.matchesAll = false)
    (flags : filter.SameShape other → filter.isFull = true ∨
      (filter.isEmpty = false ∧ (other.isFull = false ∨ filter.nHashFuncs = 0)) ∨
      (other.isFull = false ∧ other.isEmpty = true)) :
    ∃ returned after, filter.merge other = some (returned, after) ∧
      MergeKeeps filter other returned after := by
  unfold merge
  rw [partly, otherPartly, if_pos (by rfl)]
  split
  · rename_i same
    have length : (orBits filter.vData other.vData).length = filter.vData.length := by
      rw [orBits, List.length_zipWith, same.1, min_self]
    have shape : filter.SameShape { filter with vData := orBits filter.vData other.vData } :=
      ⟨length, rfl, rfl⟩
    have otherShape : other.SameShape { filter with vData := orBits filter.vData other.vData } :=
      ⟨length.trans same.1.symm, same.2.1.symm, same.2.2.symm⟩
    refine ⟨true, _, rfl, ?_, nofun, shape, rfl, rfl⟩
    rintro - vKey held
    rw [contains_eq_true_iff, contains_eq_true_iff] at held
    rw [contains_eq_true_iff]
    rcases held with (full | ⟨bits, has⟩) | otherHeld
    · exact Or.inl full
    · exact Or.inr ⟨bits, has.of_covers shape (covers_orBits_left same.1)⟩
    · rcases flags same with full | ⟨bits, fits⟩ | ⟨otherBits, otherEmpty⟩
      · exact Or.inl full
      · refine Or.inr ⟨bits, ?_⟩
        rcases otherHeld with otherFull | ⟨-, has⟩
        · rcases fits with none | none
          · rw [otherFull] at none
            cases none
          · intro i small
            have small : i < filter.nHashFuncs := small
            omega
        · exact has.of_covers otherShape (covers_orBits_right same.1)
      · rcases otherHeld with otherFull | ⟨filled, -⟩
        · rw [otherFull] at otherBits
          cases otherBits
        · rw [otherEmpty] at filled
          cases filled
  · exact ⟨false, filter, rfl, nofun, fun _ => rfl, ⟨rfl, rfl, rfl⟩, rfl, rfl⟩

/-! ## Runs -/

end CBloomFilter

/-- A filter with the keys that were inserted since it was cleared. -/
structure FilterRun where
  filter : CBloomFilter
  inserted : List (List UInt8)
  deriving DecidableEq, Repr

/-- The calls on a filter. -/
inductive FilterCall where
  | updateEmptyFull
  | insert (vKey : List UInt8)
  | clear
  | setNotFull
  | merge (other : CBloomFilter)
  deriving DecidableEq, Repr

namespace FilterRun

/-- One call, or nothing where it is undefined. -/
def call (state : FilterRun) : FilterCall → Option FilterRun
  | .updateEmptyFull => some { state with filter := state.filter.updateEmptyFull }
  | .insert vKey => (state.filter.insert vKey).map fun filter => ⟨filter, vKey :: state.inserted⟩
  | .clear => some ⟨state.filter.clear, []⟩
  | .setNotFull => some { state with filter := state.filter.setNotFull }
  | .merge other => (state.filter.merge other).map fun result =>
      { state with filter := result.2 }

/-- A step of a run. -/
def step (state : Option FilterRun) (call : FilterCall) : Option FilterRun :=
  state.bind fun running => running.call call

/-- **What a call must not meet.** A filter that is flagged full but is not, after a key was
inserted, keeps its flag. A filter without bits is used with its flags only. A filter that matches
everything is not merged, and a flag is not left behind where bits are merged. -/
def Fits (state : FilterRun) : FilterCall → Prop
  | .updateEmptyFull => state.inserted = [] ∨ state.filter.matchesAll = true ∨
      (state.filter.isFull = false ∧
        (state.filter.nHashFuncs ≠ 0 ∨ allZero state.filter.vData = false))
  | .insert _ => state.filter.isFull = true ∨ state.filter.vData ≠ [] ∨
      state.filter.nHashFuncs = 0
  | .clear => True
  | .setNotFull => (state.filter.isEmpty = true ∨ state.filter.vData ≠ [] ∨
        state.filter.nHashFuncs = 0) ∧
      (state.filter.isFull = false ∨ state.inserted = [] ∨
        (state.filter.isEmpty = false ∧ state.filter.matchesAll = true))
  | .merge other => state.filter.matchesAll = false ∧ other.matchesAll = false ∧
      (state.filter.SameShape other → state.filter.isFull = true ∨
        (state.filter.isEmpty = false ∧ (other.isFull = false ∨ state.filter.nHashFuncs = 0)) ∨
        (other.isFull = false ∧ other.isEmpty = true))

instance (state : FilterRun) : (call : FilterCall) → Decidable (state.Fits call)
  | .updateEmptyFull => inferInstanceAs (Decidable (_ ∨ _ ∨ (_ ∧ (_ ∨ _))))
  | .insert _ => inferInstanceAs (Decidable (_ ∨ _ ∨ _))
  | .clear => inferInstanceAs (Decidable True)
  | .setNotFull => inferInstanceAs (Decidable ((_ ∨ _ ∨ _) ∧ (_ ∨ _ ∨ (_ ∧ _))))
  | .merge _ => inferInstanceAs (Decidable (_ ∧ _ ∧ (_ → _ ∨ _ ∨ _)))

/-- **No key is lost**, and the filter can be looked into. -/
structure Sound (state : FilterRun) : Prop where
  reports : ∀ vKey ∈ state.inserted, state.filter.contains vKey = some true
  looks : ∀ vKey, (state.filter.contains vKey).isSome
  usable : state.filter.isFull = true ∨ state.filter.isEmpty = true ∨
    state.filter.nHashFuncs = 0 ∨ state.filter.vData ≠ []

/-- The condition on a step. -/
def FitsStep (state : Option FilterRun) (call : FilterCall) : Prop :=
  ∀ running, state = some running → running.Fits call

open CBloomFilter

variable {state : FilterRun}

/-- A key that is reported without the flag has its bits. -/
theorem Sound.hasKey (sound : Sound state) (partly : state.filter.isFull = false)
    {vKey : List UInt8} (member : vKey ∈ state.inserted) :
    state.filter.isEmpty = false ∧ state.filter.HasKey vKey := by
  rcases contains_eq_true_iff.mp (sound.reports vKey member) with full | bits
  · rw [partly] at full
    cases full
  · exact bits

/-- A filter in one of the usable states, which reports what was inserted, is sound. -/
theorem Sound.of_usable {state : FilterRun}
    (usable : state.filter.isFull = true ∨ state.filter.isEmpty = true ∨
      state.filter.nHashFuncs = 0 ∨ state.filter.vData ≠ [])
    (reports : ∀ vKey ∈ state.inserted, state.filter.contains vKey = some true) : Sound state :=
  ⟨reports, contains_isSome usable, usable⟩

/-- Setting the flags keeps the filter sound. -/
theorem Sound.updateEmptyFull (sound : Sound state) (fits : state.Fits .updateEmptyFull) :
    Sound { state with filter := state.filter.updateEmptyFull } := by
  apply Sound.of_usable
  · by_cases none : state.filter.vData = []
    · left
      show state.filter.vData.all _ = true
      rw [none]
      rfl
    · exact Or.inr (Or.inr (Or.inr none))
  · intro vKey member
    rw [contains_eq_true_iff]
    rcases fits with none | full | ⟨partly, bits⟩
    · rw [show state.inserted = [] from none] at member
      cases member
    · exact Or.inl full
    · obtain ⟨-, has⟩ := sound.hasKey partly member
      refine Or.inr ⟨?_, has⟩
      show allZero state.filter.vData = false
      rcases bits with some' | filled
      · by_contra zero
        obtain ⟨nIndex, -, set⟩ := has 0 (Nat.pos_of_ne_zero some')
        rw [hasBit_of_allZero (Bool.not_eq_false _ ▸ zero)] at set
        cases set
      · exact filled

/-- Taking the flag of a full filter back keeps it sound. -/
theorem Sound.setNotFull (sound : Sound state) (fits : state.Fits .setNotFull) :
    Sound { state with filter := state.filter.setNotFull } := by
  obtain ⟨usable, flag⟩ := fits
  apply Sound.of_usable
  · rcases usable with empty | size | none
    · exact Or.inr (Or.inl empty)
    · exact Or.inr (Or.inr (Or.inr size))
    · exact Or.inr (Or.inr (Or.inl none))
  · intro vKey member
    rw [contains_eq_true_iff]
    rcases flag with partly | none | ⟨filled, matches'⟩
    · exact Or.inr (sound.hasKey partly member)
    · rw [show state.inserted = [] from none] at member
      cases member
    · refine Or.inr ⟨filled, ?_⟩
      have size := usable.resolve_left (by rw [filled]; exact Bool.false_ne_true)
      have has : state.filter.HasKey vKey := hasKey_of_matchesAll matches' size
      exact has

/-- An inserted key is reported, and so are the older ones. -/
theorem Sound.insert (sound : Sound state) {vKey : List UInt8}
    (fits : state.Fits (.insert vKey)) :
    ∃ after, state.filter.insert vKey = some after ∧ Sound ⟨after, vKey :: state.inserted⟩ := by
  cases full : state.filter.isFull with
  | true =>
      refine ⟨state.filter, by rw [CBloomFilter.insert, if_pos full], ?_⟩
      exact Sound.of_usable (Or.inl full) fun other _ => contains_eq_true_iff.mpr (Or.inl full)
  | false =>
      have size : state.filter.vData ≠ [] ∨ state.filter.nHashFuncs = 0 :=
        fits.resolve_left (by rw [full]; exact Bool.false_ne_true)
      obtain ⟨after, went, same, covers, partly, filled, has⟩ := insert_eq_some full size vKey
      refine ⟨after, went, Sound.of_usable ?_ ?_⟩
      · rcases size with bits | none
        · refine Or.inr (Or.inr (Or.inr fun nothing => bits ?_))
          rw [← List.length_eq_zero_iff, ← same.1, show after.vData = [] from nothing]
          rfl
        · exact Or.inr (Or.inr (Or.inl (same.2.1.trans none)))
      · intro other member
        rw [contains_eq_true_iff]
        rcases List.mem_cons.mp member with rfl | earlier
        · exact Or.inr ⟨filled, has⟩
        · exact Or.inr ⟨filled, (sound.hasKey full earlier).2.of_covers same covers⟩

/-- A merged filter reports the keys of both. -/
theorem Sound.merge (sound : Sound state) {other : CBloomFilter}
    (fits : state.Fits (.merge other)) :
    ∃ returned after, state.filter.merge other = some (returned, after) ∧
      MergeKeeps state.filter other returned after ∧ Sound { state with filter := after } := by
  obtain ⟨returned, after, went, keeps⟩ := merge_eq_some fits.1 fits.2.1 fits.2.2
  refine ⟨returned, after, went, keeps, Sound.of_usable ?_ ?_⟩
  · show after.isFull = true ∨ after.isEmpty = true ∨ after.nHashFuncs = 0 ∨ after.vData ≠ []
    rw [keeps.flags.1, keeps.flags.2, keeps.shape.2.1, ne_eq, ← List.length_eq_zero_iff,
      keeps.shape.1, List.length_eq_zero_iff]
    exact sound.usable
  · intro vKey member
    have reported := sound.reports vKey member
    cases returned with
    | true => exact keeps.keys rfl vKey (Or.inl reported)
    | false =>
        rw [show after = state.filter from keeps.unchanged rfl]
        exact reported

/-- **One call** that fits keeps the keys. -/
theorem Sound.call (sound : Sound state) {call : FilterCall} (fits : state.Fits call) :
    ∃ next, state.call call = some next ∧ Sound next := by
  cases call with
  | updateEmptyFull => exact ⟨_, rfl, sound.updateEmptyFull fits⟩
  | insert vKey =>
      obtain ⟨after, went, keeps⟩ := sound.insert fits
      exact ⟨_, by rw [FilterRun.call, went]; rfl, keeps⟩
  | clear => exact ⟨_, rfl, Sound.of_usable (Or.inr (Or.inl rfl)) (by simp)⟩
  | setNotFull => exact ⟨_, rfl, sound.setNotFull fits⟩
  | merge other =>
      obtain ⟨returned, after, went, -, keeps⟩ := sound.merge fits
      exact ⟨_, by rw [FilterRun.call, went]; rfl, keeps⟩

end FilterRun

/-- A filter from a peer, before any call. -/
def FilterRun.received (vData : List UInt8) (nHashFuncs : Nat) (nTweak : UInt32) (nFlags : UInt8) :
    Option FilterRun :=
  some ⟨.deserialized vData nHashFuncs nTweak nFlags, []⟩

/-- **What is promised of a state**: the calls so far were defined, every key that was inserted is
reported, any key can be looked up, and a merge keeps the keys of both filters or changes
nothing. -/
structure FilterRun.Keeps (state : FilterRun) : Prop where
  reports : ∀ vKey ∈ state.inserted, state.filter.contains vKey = some true
  looks : ∀ vKey, (state.filter.contains vKey).isSome
  merges : ∀ other, state.Fits (.merge other) → ∃ returned after,
    state.filter.merge other = some (returned, after) ∧
      (returned = true → ∀ vKey, state.filter.contains vKey = some true ∨
        other.contains vKey = some true → after.contains vKey = some true) ∧
      (returned = false → after = state.filter)

/-- **No key is lost.** In every run of a filter from a peer whose calls all fit, each call is
defined, and every state keeps its keys. -/
theorem noFalseNegatives_of_run (vData : List UInt8) (nHashFuncs : Nat) (nTweak : UInt32)
    (nFlags : UInt8) (calls : List FilterCall)
    (fits : Foundation.Run.AllSteps FilterRun.step FilterRun.FitsStep
      (FilterRun.received vData nHashFuncs nTweak nFlags) calls) :
    ∀ reached ∈ Foundation.Run.states FilterRun.step
      (FilterRun.received vData nHashFuncs nTweak nFlags) calls,
      ∃ state, reached = some state ∧ state.Keeps := by
  have sound : ∀ reached ∈ Foundation.Run.states FilterRun.step
      (FilterRun.received vData nHashFuncs nTweak nFlags) calls,
      ∃ state, reached = some state ∧ state.Sound := by
    refine Foundation.Run.invariant_states_of_steps ?_ ?_ fits
    · rintro before call fit ⟨state, rfl, sound⟩
      obtain ⟨next, went, kept⟩ := sound.call (fit state rfl)
      exact ⟨next, went, kept⟩
    · exact ⟨_, rfl, .of_usable (Or.inl rfl) (by simp)⟩
  intro reached member
  obtain ⟨state, running, kept⟩ := sound reached member
  refine ⟨state, running, kept.reports, kept.looks, fun other fit => ?_⟩
  obtain ⟨returned, after, went, keeps, -⟩ := kept.merge fit
  exact ⟨returned, after, went, keeps.keys, keeps.unchanged⟩

/-! ## Four runs -/

/-- A filter of three bytes. -/
def threeBytes : CBloomFilter :=
  { vData := [1, 2, 4], isFull := false, isEmpty := false, nHashFuncs := 2, nTweak := 5,
    nFlags := 1 }

/-- The filter is merged into one with a key. -/
def threeByteCalls : List FilterCall :=
  [.updateEmptyFull, .insert [1, 2, 3], .merge threeBytes, .insert [9]]

/-- A filter of three bytes through its calls. -/
theorem noFalseNegatives_threeBytes :
    Foundation.Run.AllSteps FilterRun.step FilterRun.FitsStep
      (FilterRun.received [0, 0, 0] 2 5 1) threeByteCalls ∧
    ∀ reached ∈ Foundation.Run.states FilterRun.step (FilterRun.received [0, 0, 0] 2 5 1)
      threeByteCalls, ∃ state, reached = some state ∧ state.Keeps := by
  have fits : Foundation.Run.AllSteps FilterRun.step FilterRun.FitsStep
      (FilterRun.received [0, 0, 0] 2 5 1) threeByteCalls := by
    refine ⟨?_, ?_, ?_, ?_, trivial⟩
    all_goals
      intro running same
      cases same
      decide +kernel
  exact ⟨fits, noFalseNegatives_of_run [0, 0, 0] 2 5 1 threeByteCalls fits⟩

/-- A merge with a filter that matches everything is undefined. A key that is inserted before the
flags are updated is lost, and so is one of a filter that is merged into a cleared one. -/
theorem not_noFalseNegatives :
    FilterRun.step (FilterRun.received [0] 1 0 0) (.merge { threeBytes with vData := [0xff] }) =
      none ∧
    ([FilterCall.insert [7], .updateEmptyFull].foldl FilterRun.step
      (FilterRun.received [0] 1 0 0)).any (fun state => decide ([7] ∈ state.inserted) &&
        state.filter.contains [7] == some false) = true ∧
    (([FilterCall.clear, .insert [7]].foldl FilterRun.step
        (FilterRun.received [0, 0, 0] 2 5 1)).bind
      fun other => ([FilterCall.clear, .merge other.filter].foldl FilterRun.step
        (FilterRun.received [0, 0, 0] 2 5 1)).map fun merged =>
          (other.filter.contains [7], merged.filter.contains [7])) =
      some (some true, some false) ∧
    ¬ ∀ (vData : List UInt8) (nHashFuncs : Nat) (nTweak : UInt32) (nFlags : UInt8)
      (calls : List FilterCall),
      (CBloomFilter.deserialized vData nHashFuncs nTweak nFlags).isWithinSizeConstraints = true →
      ∀ reached ∈ Foundation.Run.states FilterRun.step
        (FilterRun.received vData nHashFuncs nTweak nFlags) calls,
        ∃ state, reached = some state ∧ state.Keeps := by
  have lost : ([FilterCall.insert [7], .updateEmptyFull].foldl FilterRun.step
      (FilterRun.received [0] 1 0 0)).any (fun state => decide ([7] ∈ state.inserted) &&
        state.filter.contains [7] == some false) = true := by
    decide +kernel
  refine ⟨by decide +kernel, lost, by decide +kernel, fun always => ?_⟩
  obtain ⟨state, running, keeps⟩ := always [0] 1 0 0 [.insert [7], .updateEmptyFull]
    (by decide) _ (Foundation.Run.foldl_mem_states _ _)
  rw [running] at lost
  obtain ⟨member, absent⟩ := Bool.and_eq_true_iff.mp lost
  have reported := keeps.reports [7] (of_decide_eq_true member)
  rw [eq_of_beq absent] at reported
  cases reported

end GiantCore
