import GiantCore.Zerocoin.Accumulators

/-! # The first height of a checksum

`GetChecksumHeight` of `accumulators.cpp` goes along the active chain, one block after the other up
to a height divisible by ten and from there in steps of ten. Checkpoints change only at these
heights, so that the height it finds is the first one (`getChecksumHeight_eq`).
-/

namespace GiantCore

namespace AccumulatorContext

variable (ctx : AccumulatorContext) (nChecksum : UInt32) (denomination : CoinDenomination)

/-- The checkpoint at a height has the checksum. -/
def hasChecksum (height : Nat) : Bool :=
  ctx.chainActive[height]?.any fun pindex =>
    parseChecksum pindex.nAccumulatorCheckpoint denomination == nChecksum

/-- The loop of `GetChecksumHeight`. -/
def checksumHeightFrom (height : Nat) : Nat :=
  if height < ctx.chainActive.length then
    if ctx.hasChecksum nChecksum denomination height then height
    else if height % 10 = 0 then
      if height + 10 > ctx.chainActive.length - 1 then 0
      else checksumHeightFrom (height + 10)
    else checksumHeightFrom (height + 1)
  else 0
termination_by ctx.chainActive.length - height

/-- `GetChecksumHeight`. -/
def getChecksumHeight : Nat :=
  if ctx.params.nZerocoinStartHeight < 0 then 0
  else ctx.checksumHeightFrom nChecksum denomination ctx.params.nZerocoinStartHeight.toNat

/-- The checkpoint changes only at heights divisible by ten. -/
def ChangesAtTens : Prop :=
  ∀ height pindex pprev, (height + 1) % 10 ≠ 0 → ctx.chainActive[height]? = some pprev →
    ctx.chainActive[height + 1]? = some pindex →
    pindex.nAccumulatorCheckpoint = pprev.nAccumulatorCheckpoint

/-- The smallest height from a start on whose checkpoint has the checksum, or zero. -/
def firstHeight (start : Nat) : Nat :=
  ((List.range' start (ctx.chainActive.length - start)).find?
    (ctx.hasChecksum nChecksum denomination)).getD 0

variable {ctx} {nChecksum} {denomination}

theorem hasChecksum_of_le {height : Nat} (above : ctx.chainActive.length ≤ height) :
    ctx.hasChecksum nChecksum denomination height = false := by
  unfold hasChecksum
  rw [List.getElem?_eq_none above]
  rfl

theorem firstHeight_of_le {start : Nat} (above : ctx.chainActive.length ≤ start) :
    ctx.firstHeight nChecksum denomination start = 0 := by
  rw [firstHeight, Nat.sub_eq_zero_of_le above]
  rfl

theorem firstHeight_of_hasChecksum {start : Nat}
    (here : ctx.hasChecksum nChecksum denomination start = true) :
    ctx.firstHeight nChecksum denomination start = start := by
  have inside : start < ctx.chainActive.length := by
    by_contra above
    rw [hasChecksum_of_le (Nat.not_lt.mp above)] at here
    cases here
  have count : ctx.chainActive.length - start = ctx.chainActive.length - (start + 1) + 1 := by omega
  rw [firstHeight, count, List.range'_succ, List.find?_cons_of_pos here]
  rfl

/-- A height without the checksum is passed over. -/
theorem firstHeight_step {start : Nat}
    (other : ctx.hasChecksum nChecksum denomination start = false) :
    ctx.firstHeight nChecksum denomination start =
      ctx.firstHeight nChecksum denomination (start + 1) := by
  by_cases inside : start < ctx.chainActive.length
  · have count : ctx.chainActive.length - start = ctx.chainActive.length - (start + 1) + 1 := by
      omega
    rw [firstHeight, count, List.range'_succ, List.find?_cons_of_neg (by simp [other])]
    rfl
  · rw [firstHeight_of_le (by omega), firstHeight_of_le (by omega)]

theorem firstHeight_skip {start : Nat} (steps : Nat)
    (others : ∀ i < steps, ctx.hasChecksum nChecksum denomination (start + i) = false) :
    ctx.firstHeight nChecksum denomination start =
      ctx.firstHeight nChecksum denomination (start + steps) := by
  induction steps with
  | zero => rfl
  | succ steps ih =>
      rw [ih fun i small => others i (by omega), firstHeight_step (others steps (by omega))]
      rfl

/-- **The ten blocks from a height divisible by ten** have the same checkpoint. -/
theorem ChangesAtTens.hasChecksum_add (changes : ctx.ChangesAtTens) {height : Nat}
    (tenth : height % 10 = 0) (other : ctx.hasChecksum nChecksum denomination height = false)
    {i : Nat} (small : i < 10) :
    ctx.hasChecksum nChecksum denomination (height + i) = false := by
  induction i with
  | zero => exact other
  | succ i ih =>
      by_cases inside : height + (i + 1) < ctx.chainActive.length
      · have before := ih (by omega)
        have here : ctx.chainActive[height + i + 1]? = some ctx.chainActive[height + i + 1] :=
          List.getElem?_eq_getElem inside
        have there : ctx.chainActive[height + i]? = some ctx.chainActive[height + i] :=
          List.getElem?_eq_getElem (by omega)
        have same := changes (height + i) _ _ (by omega) there here
        unfold hasChecksum at before ⊢
        rw [there] at before
        rw [← Nat.add_assoc, here, Option.any_some, same]
        exact before
      · exact hasChecksum_of_le (by omega)

theorem ChangesAtTens.checksumHeightFrom_eq (changes : ctx.ChangesAtTens) (start : Nat) :
    ctx.checksumHeightFrom nChecksum denomination start =
      ctx.firstHeight nChecksum denomination start := by
  induction start using checksumHeightFrom.induct ctx nChecksum denomination with
  | case1 height inside here =>
      rw [checksumHeightFrom, if_pos inside, if_pos here, firstHeight_of_hasChecksum here]
  | case2 height inside other tenth last =>
      rw [Bool.not_eq_true] at other
      have skipped := firstHeight_skip 10 fun i small => changes.hasChecksum_add tenth other small
      rw [checksumHeightFrom, if_pos inside, if_neg (by simp [other]), if_pos tenth, if_pos last,
        skipped, firstHeight_of_le (by omega)]
  | case3 height inside other tenth more ih =>
      rw [Bool.not_eq_true] at other
      have skipped := firstHeight_skip 10 fun i small => changes.hasChecksum_add tenth other small
      rw [checksumHeightFrom, if_pos inside, if_neg (by simp [other]), if_pos tenth, if_neg more,
        ih, skipped]
  | case4 height inside other single ih =>
      rw [Bool.not_eq_true] at other
      rw [checksumHeightFrom, if_pos inside, if_neg (by simp [other]), if_neg single, ih,
        firstHeight_step other]
  | case5 height above =>
      rw [checksumHeightFrom, if_neg above, firstHeight_of_le (Nat.not_lt.mp above)]

/-- The first height is the smallest one. -/
theorem firstHeight_spec (ctx : AccumulatorContext) (nChecksum : UInt32)
    (denomination : CoinDenomination) (start : Nat) :
    (∃ height, ctx.firstHeight nChecksum denomination start = height ∧ start ≤ height ∧
        ctx.hasChecksum nChecksum denomination height = true ∧
        ∀ lower, start ≤ lower → lower < height →
          ctx.hasChecksum nChecksum denomination lower = false) ∨
      ctx.firstHeight nChecksum denomination start = 0 ∧
        ∀ height, start ≤ height → ctx.hasChecksum nChecksum denomination height = false := by
  by_cases found : ∃ steps, ctx.hasChecksum nChecksum denomination (start + steps) = true
  · have first := Nat.find_spec found
    have others : ∀ i < Nat.find found,
        ctx.hasChecksum nChecksum denomination (start + i) = false := fun i small =>
      Bool.not_eq_true _ ▸ Nat.find_min found small
    refine Or.inl ⟨start + Nat.find found, ?_, Nat.le_add_right _ _, first, ?_⟩
    · rw [firstHeight_skip _ others, firstHeight_of_hasChecksum first]
    · intro lower above below
      have place : start + (lower - start) = lower := by omega
      rw [← place]
      exact others _ (by omega)
  · have none : ∀ height, start ≤ height →
        ctx.hasChecksum nChecksum denomination height = false := by
      intro height above
      by_contra here
      rw [Bool.not_eq_false] at here
      exact found ⟨height - start, by rwa [Nat.add_sub_cancel' above]⟩
    refine Or.inr ⟨?_, none⟩
    rw [firstHeight_skip ctx.chainActive.length fun i _ => none _ (Nat.le_add_right _ _),
      firstHeight_of_le (Nat.le_add_left _ _)]

/-- **`GetChecksumHeight` finds the first occurrence**: the smallest height from the start of
zerocoins on whose checkpoint has the checksum, and zero if there is none. -/
theorem getChecksumHeight_eq (ctx : AccumulatorContext) (changes : ctx.ChangesAtTens) (start : Nat)
    (starts : ctx.params.nZerocoinStartHeight = start) (nChecksum : UInt32)
    (denomination : CoinDenomination) :
    (∃ height, ctx.getChecksumHeight nChecksum denomination = height ∧ start ≤ height ∧
        ctx.hasChecksum nChecksum denomination height = true ∧
        ∀ lower, start ≤ lower → lower < height →
          ctx.hasChecksum nChecksum denomination lower = false) ∨
      ctx.getChecksumHeight nChecksum denomination = 0 ∧
        ∀ height, start ≤ height → ctx.hasChecksum nChecksum denomination height = false := by
  have same : ctx.getChecksumHeight nChecksum denomination =
      ctx.firstHeight nChecksum denomination start := by
    rw [getChecksumHeight, starts, if_neg (by omega), Int.toNat_natCast,
      changes.checksumHeightFrom_eq]
  rw [same]
  exact firstHeight_spec ctx nChecksum denomination start

/-- A checkpoint with one checksum for all denominations. -/
def evenCheckpoint (nChecksum : Nat) : Uint256 :=
  BitVec.ofNat 256 ((List.range 8).map fun i => nChecksum * 2 ^ (32 * i)).sum

/-- A chain of fifty blocks whose checkpoint changes at every tenth, with zerocoins from height 25
on. -/
def changingCheckpoints : AccumulatorContext :=
  { quietContext 0 with
    params := { CChainParams.main with nZerocoinStartHeight := 25 }
    chainActive := (List.range 50).map fun height => ⟨evenCheckpoint (height / 10), none⟩ }

theorem changesAtTens_changingCheckpoints : changingCheckpoints.ChangesAtTens := by
  intro height pindex pprev inside before here
  obtain ⟨below, at_, rfl⟩ := (List.getElem?_map ..).symm.trans before |> Option.map_eq_some_iff.mp
  obtain ⟨above, next, rfl⟩ := (List.getElem?_map ..).symm.trans here |> Option.map_eq_some_iff.mp
  obtain ⟨-, rfl⟩ := List.getElem?_eq_some_iff.mp at_
  obtain ⟨-, rfl⟩ := List.getElem?_eq_some_iff.mp next
  have same : (height + 1) / 10 = height / 10 := by omega
  rw [List.getElem_range, List.getElem_range, same]

/-- The search goes on one by one to height 30, and then by ten to height 40. -/
theorem getChecksumHeight_changingCheckpoints :
    changingCheckpoints.getChecksumHeight 4 .one = 40 ∧
      ∀ lower, 25 ≤ lower → lower < 40 →
        changingCheckpoints.hasChecksum 4 .one lower = false := by
  have here : changingCheckpoints.hasChecksum 4 .one 40 = true := by decide +kernel
  have before : ∀ lower < 40, changingCheckpoints.hasChecksum 4 .one lower = false := by
    decide +kernel
  rcases getChecksumHeight_eq changingCheckpoints changesAtTens_changingCheckpoints 25 rfl 4 .one
    with ⟨height, found, -, has, first⟩ | ⟨-, none⟩
  · rcases lt_trichotomy height 40 with early | rfl | late
    · rw [before height early] at has
      cases has
    · exact ⟨found, first⟩
    · rw [first 40 (by decide) late] at here
      cases here
  · rw [none 40 (by decide)] at here
    cases here

end AccumulatorContext

end GiantCore
