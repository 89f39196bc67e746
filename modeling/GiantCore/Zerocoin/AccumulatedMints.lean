import GiantCore.Zerocoin.Accumulators

/-! # What a checkpoint stands for

A checkpoint is eight checksums, and the database leads from each to the value of an
accumulator. The checkpoint of a height divisible by ten is computed from the one of the
block before and from the mints of ten blocks, those from twenty to eleven below. One
after the other these windows cover the chain from the start of zerocoins on, so a
checkpoint stands for the mints of all blocks from there up to eleven below it, on top of
what the block before the start carries.
-/

namespace GiantCore

open CoinDenomination

/-! ## Accumulators by their values -/

namespace AccumulatorMap

variable (lib : Libzerocoin)

/-- Accumulators of the second version with these values. -/
def ofValues (values : CoinDenomination → CBigNum) : AccumulatorMap where
  useModulusV1 := false
  mapAccumulators denom :=
    if denom = .error then Accumulator.fresh lib false .error else ⟨false, denom, values denom⟩

/-- The values after some coins, each raised by the coins of its denomination in turn. -/
def foldMints (values : CoinDenomination → CBigNum) (coins : List PublicCoin) :
    CoinDenomination → CBigNum := fun denom =>
  (coins.filter fun coin => decide (coin.denomination = denom)).foldl
    (fun value coin => lib.powMod value coin.value (lib.accumulatorModulus false)) (values denom)

/-- Without mints the values stay. -/
@[simp] theorem foldMints_nil (values : CoinDenomination → CBigNum) :
    foldMints lib values [] = values := rfl

/-- Mints are folded one after the other. -/
theorem foldMints_append (values : CoinDenomination → CBigNum) (first second : List PublicCoin) :
    foldMints lib values (first ++ second) = foldMints lib (foldMints lib values first) second := by
  funext denom
  rw [foldMints, List.filter_append, List.foldl_append]
  rfl

/-- A reset map has the base in every accumulator. -/
theorem reset_eq_ofValues :
    AccumulatorMap.reset lib false = ofValues lib fun _ => lib.accumulatorBase false := by
  unfold reset ofValues
  congr 1
  funext denom
  split
  · rename_i error
    rw [error]
  · rfl

variable {lib}

/-- One value of the map is set. -/
theorem setValue_ofValues {denom : CoinDenomination} (proper : denom ≠ .error)
    (values : CoinDenomination → CBigNum) (bnValue : CBigNum) :
    (ofValues lib values).setValue denom bnValue =
      ofValues lib (Function.update values denom bnValue) := by
  unfold setValue ofValues
  congr 1
  funext other
  by_cases same : other = denom
  · subst same
    simp [proper]
  · simp [same]

/-- `Load` sets the values one after the other. -/
theorem load_ofValues {store : AccumulatorStore} {nCheckpoint : Uint256}
    {values loaded : CoinDenomination → CBigNum}
    (stored : ∀ denom ∈ zerocoinDenomList,
      store.zerocoinDB (parseChecksum nCheckpoint denom) = some (loaded denom)) :
    (ofValues lib values).load store nCheckpoint = some (ofValues lib loaded) := by
  have steps : ∀ (denoms : List CoinDenomination) (values : CoinDenomination → CBigNum),
      (∀ denom ∈ denoms, denom ≠ .error) →
      (∀ denom ∈ denoms,
        store.zerocoinDB (parseChecksum nCheckpoint denom) = some (loaded denom)) →
      denoms.foldlM (fun accumulators denom =>
        (store.zerocoinDB (parseChecksum nCheckpoint denom)).map
          (accumulators.setValue denom)) (ofValues lib values) =
        some (ofValues lib fun denom => if denom ∈ denoms then loaded denom else values denom) := by
    intro denoms
    induction denoms with
    | nil =>
        intro values _ _
        simp
    | cons denom rest ih =>
        intro values proper stored
        have first := stored denom List.mem_cons_self
        rw [List.foldlM_cons, first, Option.map_some,
          setValue_ofValues (proper denom List.mem_cons_self)]
        have later := ih (Function.update values denom (loaded denom))
          (fun other member => proper other (List.mem_cons_of_mem _ member))
          (fun other member => stored other (List.mem_cons_of_mem _ member))
        rw [Option.bind_eq_bind, Option.bind_some, later]
        congr 2
        funext other
        by_cases same : other = denom
        · simp [same]
        · simp [same]
  rw [load, steps zerocoinDenomList values (by decide) stored]
  congr 1
  unfold ofValues
  congr 1
  funext denom
  cases denom with
  | error => rfl
  | _ => rfl

/-- A map that is loaded has values. -/
theorem exists_of_load {store : AccumulatorStore} {nCheckpoint : Uint256}
    {values : CoinDenomination → CBigNum} {accumulators : AccumulatorMap}
    (loads : (ofValues lib values).load store nCheckpoint = some accumulators) :
    ∃ loaded, accumulators = ofValues lib loaded := by
  have stored := load_eq_some_iff.mp ⟨accumulators, loads⟩
  have found : ∀ denom ∈ zerocoinDenomList,
      store.zerocoinDB (parseChecksum nCheckpoint denom) =
        some ((store.zerocoinDB (parseChecksum nCheckpoint denom)).getD 0) := by
    intro denom member
    obtain ⟨value, read⟩ := stored denom member
    rw [read, Option.getD_some]
  rw [load_ofValues found] at loads
  exact ⟨_, (Option.some.inj loads).symm⟩

/-- A coin is added to the accumulator of its denomination. -/
theorem accumulate_ofValues {values : CoinDenomination → CBigNum} {coin : PublicCoin}
    {accumulators : AccumulatorMap}
    (added : (ofValues lib values).accumulate lib coin = some accumulators) :
    accumulators = ofValues lib (foldMints lib values [coin]) := by
  unfold accumulate at added
  split at added
  · cases added
  · rename_i proper
    rw [← Option.some.inj added]
    unfold ofValues
    congr 1
    funext denom
    by_cases same : denom = coin.denomination
    · subst same
      simp [proper, foldMints, Accumulator.increment]
    · have other : ¬ coin.denomination = denom := fun equal => same equal.symm
      simp [same, other, foldMints]

/-- **Adding coins** raises the values one after the other. -/
theorem foldlM_accumulate {values : CoinDenomination → CBigNum} {coins : List PublicCoin}
    {accumulators : AccumulatorMap}
    (added : coins.foldlM (AccumulatorMap.accumulate lib) (ofValues lib values) =
      some accumulators) :
    accumulators = ofValues lib (foldMints lib values coins) := by
  induction coins generalizing values with
  | nil =>
      cases added
      rfl
  | cons coin rest ih =>
      rw [List.foldlM_cons, Option.bind_eq_bind, Option.bind_eq_some_iff] at added
      obtain ⟨next, first, remaining⟩ := added
      rw [accumulate_ofValues first] at remaining
      rw [ih remaining, ← foldMints_append]
      rfl

end AccumulatorMap

/-! ## The checksums of a checkpoint -/

/-- Above the last checksum stand those before it. -/
theorem shiftRight_checkpoint {rest : Uint256} {nChecksum : BitVec 32} {k : Nat} (small : k < 7) :
    ((rest <<< 32 ||| nChecksum.setWidth 256) >>> (32 * (k + 1))).setWidth 32 =
      (rest >>> (32 * k)).setWidth 32 := by
  apply BitVec.eq_of_getLsbD_eq
  intro i bound
  have inside : 32 * (k + 1) + i < 256 := by omega
  have above : ¬ 32 * (k + 1) + i < 32 := by omega
  have place : 32 * (k + 1) + i - 32 = 32 * k + i := by omega
  simp only [BitVec.getLsbD_setWidth, BitVec.getLsbD_ushiftRight, BitVec.getLsbD_or,
    BitVec.getLsbD_shiftLeft, bound, inside, above, place, decide_true, decide_false,
    Bool.true_and, Bool.not_false]
  rw [BitVec.getLsbD_of_ge nChecksum _ (by omega), Bool.or_false]

/-- The lowest checksum of a checkpoint. -/
theorem setWidth_checkpoint {rest : Uint256} {nChecksum : BitVec 32} :
    ((rest <<< 32 ||| nChecksum.setWidth 256) >>> (32 * 0)).setWidth 32 = nChecksum := by
  apply BitVec.eq_of_getLsbD_eq
  intro i bound
  simp [bound]

/-- Put a checksum behind others. -/
def appendChecksum (nCheckpoint : Uint256) (nChecksum : BitVec 32) : Uint256 :=
  nCheckpoint <<< 32 ||| nChecksum.setWidth 256

/-- The last eight of a row of checksums can be read back. -/
theorem setWidth_foldl_checksum (nChecksums : List (BitVec 32)) (start : Uint256) {k : Nat}
    (small : k < 8) (inside : k < nChecksums.length) :
    ((nChecksums.foldl appendChecksum start) >>> (32 * k)).setWidth 32 =
      nChecksums[nChecksums.length - 1 - k] := by
  induction nChecksums using List.reverseRecOn generalizing k with
  | nil => simp at inside
  | append_singleton before last ih =>
      rw [List.length_append, List.length_singleton] at inside
      simp only [List.foldl_append, List.foldl_cons, List.foldl_nil, List.length_append,
        List.length_singleton, appendChecksum]
      cases k with
      | zero =>
          rw [setWidth_checkpoint]
          simp
      | succ k =>
          have left : before.length + 1 - 1 - (k + 1) < before.length := by omega
          have earlier := ih (show k < 8 by omega) (show k < before.length by omega)
          rw [shiftRight_checkpoint (show k < 7 by omega), earlier, List.getElem_append_left left]
          congr 1
          omega

/-- **The checksum of a denomination** can be read from the checkpoint. -/
theorem parseChecksum_getCheckpoint {lib : Libzerocoin} {denom : CoinDenomination}
    (accumulators : AccumulatorMap) (member : denom ∈ zerocoinDenomList) :
    parseChecksum (accumulators.getCheckpoint lib) denom =
      lib.getChecksum (accumulators.mapAccumulators denom).value := by
  have bound := List.idxOf_lt_length_of_mem member
  have length : zerocoinDenomList.length = 8 := rfl
  have folded : accumulators.getCheckpoint lib = (zerocoinDenomList.map fun denom =>
      (lib.getChecksum (accumulators.mapAccumulators denom).value).toBitVec).foldl
        appendChecksum 0 := by
    rw [List.foldl_map]
    rfl
  unfold parseChecksum
  dsimp only
  rw [folded, setWidth_foldl_checksum _ _ (by omega) (by rw [List.length_map]; omega),
    List.getElem_map]
  have place : (zerocoinDenomList.map fun denom =>
      (lib.getChecksum (accumulators.mapAccumulators denom).value).toBitVec).length - 1 -
      (zerocoinDenomList.length - 1 - zerocoinDenomList.idxOf denom) =
        zerocoinDenomList.idxOf denom := by
    rw [List.length_map]
    omega
  simp only [place, List.getElem_idxOf]

/-! ## The mints of the chain -/

namespace AccumulatorContext

variable (ctx : AccumulatorContext)

/-- The accumulators that `InitializeAccumulators` takes a checkpoint for. -/
def standsFor (store : AccumulatorStore) (nCheckpoint : Uint256) : Option AccumulatorMap :=
  if nCheckpoint = 0 then some (AccumulatorMap.reset ctx.lib false)
  else (AccumulatorMap.reset ctx.lib false).load store nCheckpoint

/-- The mints that `BlockToPubcoinList` lists of the block at a height. -/
def mintsAt (fFilterInvalid : Bool) (height : Nat) : List PublicCoin :=
  ((ctx.chainActive[height]?.bind ChainEntry.block).bind
    (blockToPubcoinList ctx.validOutPoint fFilterInvalid)).getD []

/-- The mints of the blocks from a height on and below another. -/
def mintsBetween (fFilterInvalid : Bool) (start stop : Nat) : List PublicCoin :=
  (List.range' start (stop - start)).flatMap (ctx.mintsAt fFilterInvalid)

/-- The chain below a height. -/
def below (height : Nat) : AccumulatorContext :=
  { ctx with chainActive := ctx.chainActive.take height }

/-- Each block carries a checkpoint that `ValidateAccumulatorCheckpoint` accepted when the
block was on top of the chain. -/
def Validated (store : AccumulatorStore) : Prop :=
  ∀ height entry, ctx.chainActive[height]? = some entry → ∃ block : CBlock,
    block.nAccumulatorCheckpoint = entry.nAccumulatorCheckpoint ∧
    (ctx.below height).accepts store
      (AccumulatorMap.reset ctx.lib (decide ((height : Int) < ctx.params.nBlockZerocoinV2)))
      height block

/-- The accumulators that were calculated at a height of the chain. -/
def Calculated (store : AccumulatorStore) (height : Nat) (accumulators : AccumulatorMap) : Prop :=
  ctx.params.nBlockZerocoinV2 ≤ height ∧ (height : Int).tmod 10 = 0 ∧
    height < ctx.chainActive.length ∧ ∃ nCheckpoint,
      (calculateAccumulatorCheckpoint (ctx.below height) height store
        (AccumulatorMap.reset ctx.lib false)).2 = .ok (nCheckpoint, accumulators)

/-- The database holds each value that was calculated under its checksum, and only fresh
accumulators have eight checksums of zero. -/
structure Stored (store : AccumulatorStore) : Prop where
  values : ∀ height accumulators, ctx.Calculated store height accumulators →
    ∀ denom ∈ zerocoinDenomList,
      store.zerocoinDB (ctx.lib.getChecksum (accumulators.mapAccumulators denom).value) =
        some (accumulators.mapAccumulators denom).value
  zero : ∀ height accumulators, ctx.Calculated store height accumulators →
    accumulators.getCheckpoint ctx.lib = 0 → accumulators = AccumulatorMap.reset ctx.lib false

variable {ctx}

/-- An empty range has no mints. -/
theorem mintsBetween_of_le {fFilterInvalid : Bool} {start stop : Nat} (done : stop ≤ start) :
    ctx.mintsBetween fFilterInvalid start stop = [] := by
  rw [mintsBetween, Nat.sub_eq_zero_of_le done]
  rfl

/-- Windows that meet. -/
theorem mintsBetween_append {fFilterInvalid : Bool} {start middle stop : Nat}
    (first : start ≤ middle) (second : middle ≤ stop) :
    ctx.mintsBetween fFilterInvalid start middle ++ ctx.mintsBetween fFilterInvalid middle stop =
      ctx.mintsBetween fFilterInvalid start stop := by
  have whole : stop - start = middle - start + (stop - middle) := by omega
  have meet : start + (middle - start) = middle := by omega
  rw [mintsBetween, mintsBetween, mintsBetween, whole, ← List.range'_append_1, List.flatMap_append,
    meet]

/-- A window of ten goes on where those before it end, also if it begins below the
start. -/
theorem mintsBetween_window {fFilterInvalid : Bool} {start height : Nat} :
    ctx.mintsBetween fFilterInvalid start (height - 20) ++
      ctx.mintsBetween fFilterInvalid (max start (height - 20)) (height - 10) =
      ctx.mintsBetween fFilterInvalid start (height - 10) := by
  by_cases early : height - 20 ≤ start
  · rw [mintsBetween_of_le early, max_eq_left early, List.nil_append]
  · rw [max_eq_right (by omega)]
    exact mintsBetween_append (by omega) (by omega)

/-- The mints of a range do not depend on the blocks above it. -/
theorem mintsBetween_below {fFilterInvalid : Bool} {start stop height : Nat}
    (inside : stop ≤ height) :
    (ctx.below height).mintsBetween fFilterInvalid start stop =
      ctx.mintsBetween fFilterInvalid start stop := by
  unfold mintsBetween
  apply List.flatMap_congr
  intro other member
  have range := List.mem_range'_1.mp member
  unfold mintsAt below
  rw [List.getElem?_take_of_lt (by omega)]

end AccumulatorContext

/-! ## One checkpoint -/

section

variable {ctx : AccumulatorContext} {store : AccumulatorStore} {fFilterInvalid : Bool}
  {start : Nat} {values : CoinDenomination → CBigNum}

/-- A round of the loop adds the mints of its block, from the start on. -/
theorem accumulateBlock_eq_ok (activated : ctx.params.nZerocoinStartHeight = start) {height : Nat}
    {entry : ChainEntry} {count : Nat} {after : AccumulatorMap × Nat}
    (here : ctx.chainActive[height]? = some entry)
    (went : accumulateBlock ctx fFilterInvalid height entry
      (AccumulatorMap.ofValues ctx.lib values, count) = .ok after) :
    after = (AccumulatorMap.ofValues ctx.lib (AccumulatorMap.foldMints ctx.lib values
        (ctx.mintsBetween fFilterInvalid (max start height) (height + 1))),
      count + (ctx.mintsBetween fFilterInvalid (max start height) (height + 1)).length) := by
  cases running : ctx.shutdownRequested with
  | true => simp [accumulateBlock, running, throw, throwThe, MonadExceptOf.throw, bind,
      Except.bind] at went
  | false =>
      by_cases early : (height : Int) < ctx.params.nZerocoinStartHeight
      · simp only [accumulateBlock, running, early, if_true, Bool.false_eq_true, if_false] at went
        cases went
        rw [AccumulatorContext.mintsBetween_of_le (by omega)]
        rfl
      · simp only [accumulateBlock, running, early, if_false, Bool.false_eq_true] at went
        split at went
        · rename_i block read
          split at went
          · rename_i listPubcoins listed
            have mints : ctx.mintsBetween fFilterInvalid (max start height) (height + 1) =
                listPubcoins := by
              have first : max start height = height := by omega
              rw [first, AccumulatorContext.mintsBetween, Nat.add_sub_cancel_left]
              simp [AccumulatorContext.mintsAt, here, read, listed]
            split at went
            · rename_i accumulators added
              cases went
              rw [mints, AccumulatorMap.foldlM_accumulate added]
            · cases went
          · cases went
        · cases went

/-- **The loop** adds the mints of the blocks of its range, from the start on. -/
theorem accumulateBlocks_eq_ok (activated : ctx.params.nZerocoinStartHeight = start)
    {rounds height count : Nat} {after : AccumulatorMap × Nat}
    (went : accumulateBlocks ctx fFilterInvalid rounds height
      (AccumulatorMap.ofValues ctx.lib values, count) = .ok after) :
    after = (AccumulatorMap.ofValues ctx.lib (AccumulatorMap.foldMints ctx.lib values
        (ctx.mintsBetween fFilterInvalid (max start height) (height + rounds))),
      count + (ctx.mintsBetween fFilterInvalid (max start height) (height + rounds)).length) := by
  induction rounds generalizing height values count with
  | zero =>
      simp only [accumulateBlocks, Foundation.Checks.bind_eq_ok] at went
      obtain ⟨_, -, same⟩ := went
      cases same
      rw [AccumulatorContext.mintsBetween_of_le (by omega)]
      rfl
  | succ rounds ih =>
      simp only [accumulateBlocks, Foundation.Checks.bind_eq_ok] at went
      obtain ⟨entry, index, next, round, remaining⟩ := went
      have here : ctx.chainActive[height]? = some entry := by
        unfold AccumulatorContext.indexAt at index
        rw [if_neg (by omega), Int.toNat_natCast] at index
        cases found : ctx.chainActive[height]? with
        | none =>
            rw [found] at index
            cases index
        | some other =>
            rw [found] at index
            cases index
            rfl
      have first := accumulateBlock_eq_ok activated here round
      subst first
      have remaining : accumulateBlocks ctx fFilterInvalid rounds (height + 1 : Nat) _ = _ :=
        remaining
      have later := ih remaining
      -- the mints of the round and those of the rounds after it
      have split : ctx.mintsBetween fFilterInvalid (max start height) (height + 1) ++
          ctx.mintsBetween fFilterInvalid (max start (height + 1)) (height + 1 + rounds) =
          ctx.mintsBetween fFilterInvalid (max start height) (height + (rounds + 1)) := by
        have total : height + (rounds + 1) = height + 1 + rounds := by omega
        by_cases early : height < start
        · have same : max start (height + 1) = max start height := by omega
          rw [AccumulatorContext.mintsBetween_of_le (by omega), same, total, List.nil_append]
        · have next : max start (height + 1) = height + 1 := by omega
          rw [next, total]
          exact AccumulatorContext.mintsBetween_append (by omega) (by omega)
      rw [later, ← AccumulatorMap.foldMints_append, split, Nat.add_assoc, ← List.length_append,
        split]

/-- On the test network the accumulators start from the checkpoint of the block before. -/
theorem initializeAccumulators_eq_ok (regtest : ctx.params.networkID = .regtest) {height : Int}
    {prev : ChainEntry} {useModulusV1 : Bool}
    (second : ctx.params.nBlockZerocoinV2 ≤ height) (before : ctx.indexAt (height - 1) = .ok prev)
    {result : AccumulatorStore × Int × AccumulatorMap}
    (went : initializeAccumulators ctx height store
      (AccumulatorMap.reset ctx.lib useModulusV1) = .ok result) :
    result.1 = store ∧ result.2.1 = height ∧
      ctx.standsFor store prev.nAccumulatorCheckpoint = some result.2.2 := by
  have ordinary : ¬ (height = ctx.params.nBlockRecalculateAccumulators ∧
      ctx.params.networkID ≠ .regtest) := fun both => both.2 regtest
  have notHard : ¬ (height ≥ ctx.params.nBlockZerocoinV2 ∧
      height ≤ ctx.params.nBlockZerocoinV2 + 20 ∧
      ctx.params.networkID ≠ .regtest) := fun all => all.2.2 regtest
  unfold initializeAccumulators at went
  by_cases early : height < ctx.params.nZerocoinStartHeight
  · rw [if_pos early] at went
    cases went
  · rw [if_neg early, if_neg ordinary, if_neg notHard, before, if_pos second] at went
    unfold AccumulatorContext.standsFor
    by_cases zero : prev.nAccumulatorCheckpoint = 0
    · simp only [bind, Except.bind, zero, if_true, pure, Except.pure] at went
      cases went
      simp [zero, AccumulatorMap.reset]
    · rw [if_neg zero]
      simp only [bind, Except.bind, zero, if_false] at went
      cases loads : (AccumulatorMap.reset ctx.lib false).load store
          prev.nAccumulatorCheckpoint with
      | none =>
          rw [loads] at went
          cases went
      | some accumulators =>
          rw [loads] at went
          cases went
          exact ⟨rfl, rfl, rfl⟩

/-- **The checkpoint of a height divisible by ten.** The mints of one window come on top
of what the checkpoint before stands for. Without such mints the checkpoint stays. -/
theorem calculateAccumulatorCheckpoint_eq_ok (regtest : ctx.params.networkID = .regtest)
    (activated : ctx.params.nZerocoinStartHeight = start) {height : Nat} {prev : ChainEntry}
    (second : ctx.params.nBlockZerocoinV2 ≤ height) (high : 20 ≤ height)
    (tenth : (height : Int).tmod 10 = 0) (before : ctx.indexAt (height - 1) = .ok prev)
    (filters : decide ((height : Int) ≥ ctx.params.nBlockRecalculateAccumulators) =
      fFilterInvalid)
    (stands : ctx.standsFor store prev.nAccumulatorCheckpoint =
      some (AccumulatorMap.ofValues ctx.lib values))
    {accumulators after : AccumulatorMap} {useModulusV1 : Bool} {nCheckpoint : Uint256}
    (reset : accumulators = AccumulatorMap.reset ctx.lib useModulusV1)
    (went : (calculateAccumulatorCheckpoint ctx height store accumulators).2 =
      .ok (nCheckpoint, after)) :
    after = AccumulatorMap.ofValues ctx.lib (AccumulatorMap.foldMints ctx.lib values
        (ctx.mintsBetween fFilterInvalid (max start (height - 20)) (height - 10))) ∧
      nCheckpoint =
        if ctx.mintsBetween fFilterInvalid (max start (height - 20)) (height - 10) = [] then
          prev.nAccumulatorCheckpoint
        else after.getCheckpoint ctx.lib := by
  subst reset
  rw [calculateAccumulatorCheckpoint, if_neg (Int.not_lt.mpr second),
    if_neg (not_not.mpr tenth)] at went
  split at went
  · cases went
  · rename_i storeAfter nHeightCheckpoint loaded init
    obtain ⟨_, heights, loads⟩ := initializeAccumulators_eq_ok regtest second before init
    have heights : nHeightCheckpoint = height := heights
    have loads : ctx.standsFor store _ = some loaded := loads
    rw [stands] at loads
    cases loads
    subst heights
    have window : (height : Int) - 20 = (height - 20 : Nat) := by omega
    have rounds : ((height : Int) - 10 - (height - 20 : Nat)).toNat = 10 := by omega
    simp only [checkpointFrom, filters, window, rounds, Foundation.Checks.bind_eq_ok] at went
    obtain ⟨⟨accumulated, nTotalMintsFound⟩, loop, result⟩ := went
    have stop : height - 20 + 10 = height - 10 := by omega
    have mints := accumulateBlocks_eq_ok activated loop
    rw [stop, Nat.zero_add] at mints
    cases mints
    by_cases none : ctx.mintsBetween fFilterInvalid (max start (height - 20)) (height - 10) = []
    · rw [if_pos none]
      simp only [none, List.length_nil, if_true, Foundation.Checks.bind_eq_ok] at result
      obtain ⟨found, index, same⟩ := result
      rw [before] at index
      cases index
      cases same
      rw [none]
      exact ⟨rfl, rfl⟩
    · have some : ¬ (ctx.mintsBetween fFilterInvalid (max start (height - 20))
          (height - 10)).length = 0 := by
        rw [List.length_eq_zero_iff]
        exact none
      rw [if_neg none]
      simp only [some, if_false] at result
      cases result
      exact ⟨rfl, rfl⟩

/-- Accumulators whose values are stored are what their checkpoint stands for. -/
theorem standsFor_getCheckpoint
    (stored : ∀ denom ∈ zerocoinDenomList,
      store.zerocoinDB (ctx.lib.getChecksum
        ((AccumulatorMap.ofValues ctx.lib values).mapAccumulators denom).value) =
      some ((AccumulatorMap.ofValues ctx.lib values).mapAccumulators denom).value)
    (zero : (AccumulatorMap.ofValues ctx.lib values).getCheckpoint ctx.lib = 0 →
      AccumulatorMap.ofValues ctx.lib values = AccumulatorMap.reset ctx.lib false) :
    ctx.standsFor store ((AccumulatorMap.ofValues ctx.lib values).getCheckpoint ctx.lib) =
      some (AccumulatorMap.ofValues ctx.lib values) := by
  unfold AccumulatorContext.standsFor
  split
  · rename_i vanishes
    rw [zero vanishes]
  · rw [AccumulatorMap.reset_eq_ofValues]
    apply AccumulatorMap.load_ofValues
    intro denom member
    rw [parseChecksum_getCheckpoint _ member, stored denom member]
    have proper : denom ≠ .error := by
      rintro rfl
      revert member
      decide
    simp [AccumulatorMap.ofValues, proper]

end

/-! ## The whole chain -/

/-- A chain whose checkpoints were validated on the test network, where both starts are at
one height. The accumulated mints are filtered at all heights or at none. -/
structure AccumulatorContext.Checkpointed (ctx : AccumulatorContext) (store : AccumulatorStore)
    (fFilterInvalid : Bool) (start : Nat) : Prop where
  regtest : ctx.params.networkID = .regtest
  activated : ctx.params.nZerocoinStartHeight = start
  second : ctx.params.nBlockZerocoinV2 = start
  tenth : start % 10 = 0
  high : 20 ≤ start
  filters : ∀ height : Nat, start ≤ height → height < ctx.chainActive.length →
    decide ((height : Int) ≥ ctx.params.nBlockRecalculateAccumulators) = fFilterInvalid
  connecting : ctx.fVerifyingBlocks = false
  validated : ctx.Validated store
  stored : ctx.Stored store

namespace AccumulatorContext.Checkpointed

variable {ctx : AccumulatorContext} {store : AccumulatorStore} {fFilterInvalid : Bool}
  {start height : Nat} {parent entry : ChainEntry} {values : CoinDenomination → CBigNum}

/-- The last block of the shorter chain. -/
theorem indexAt_below (found : ctx.chainActive[height]? = some parent) :
    (ctx.below (height + 1)).indexAt ((height + 1 : Nat) - 1) = .ok parent := by
  have place : ((height + 1 : Nat) : Int) - 1 = height := by omega
  rw [AccumulatorContext.indexAt, place, if_neg (by omega), Int.toNat_natCast]
  have below : (ctx.below (height + 1)).chainActive[height]? = some parent := by
    rw [← found]
    exact List.getElem?_take_of_lt (Nat.lt_succ_self height)
  rw [below]
  rfl

/-- A height is a multiple of ten. -/
theorem tmod_ten (height : Nat) : (height : Int).tmod 10 = 0 ↔ height % 10 = 0 := by
  rw [Int.tmod_eq_emod_of_nonneg (by omega)]
  omega

/-- From the start on the checkpoints are compared. -/
theorem checked (chain : ctx.Checkpointed store fFilterInvalid start) (late : start ≤ height) :
    ¬ ((height : Int) < (ctx.below height).params.nBlockZerocoinV2 ∨
      (ctx.below height).fVerifyingBlocks = true) := by
  have second := chain.second
  rintro (early | verifying)
  · have early : (height : Int) < ctx.params.nBlockZerocoinV2 := early
    omega
  · have verifying : ctx.fVerifyingBlocks = true := verifying
    simp [chain.connecting] at verifying

/-- A block between two checkpoints carries the one of the block before. -/
theorem carries_of_not_tenth (chain : ctx.Checkpointed store fFilterInvalid start)
    (late : start ≤ height + 1) (between : (height + 1) % 10 ≠ 0)
    (found : ctx.chainActive[height]? = some parent)
    (here : ctx.chainActive[height + 1]? = some entry) :
    entry.nAccumulatorCheckpoint = parent.nAccumulatorCheckpoint := by
  obtain ⟨block, carries, after, accepted⟩ := chain.validated (height + 1) entry here
  have checked := chain.checked late
  have other : ¬ ((height + 1 : Nat) : Int).tmod 10 = 0 := by
    rw [tmod_ten]
    exact between
  have under : (ctx.below (height + 1)).parentOf ((height + 1 : Nat)) = some parent := by
    have place : (((height + 1 : Nat) : Int) - 1).toNat = height := by omega
    rw [AccumulatorContext.parentOf, if_neg (by omega), place, ← found]
    exact List.getElem?_take_of_lt (Nat.lt_succ_self height)
  unfold validateAccumulatorCheckpoint at accepted
  rw [if_neg checked, if_neg other, under] at accepted
  rw [← carries]
  by_contra different
  simp [different] at accepted

/-- A block with a checkpoint of its own stands for the mints of one more window. -/
theorem standsFor_of_tenth (chain : ctx.Checkpointed store fFilterInvalid start)
    (late : start ≤ height + 1) (tenth : (height + 1) % 10 = 0)
    (found : ctx.chainActive[height]? = some parent)
    (here : ctx.chainActive[height + 1]? = some entry)
    (stands : ctx.standsFor store parent.nAccumulatorCheckpoint =
      some (AccumulatorMap.ofValues ctx.lib values)) :
    let mints := ctx.mintsBetween fFilterInvalid (max start (height + 1 - 20)) (height + 1 - 10)
    let after := AccumulatorMap.ofValues ctx.lib (AccumulatorMap.foldMints ctx.lib values mints)
    ctx.standsFor store entry.nAccumulatorCheckpoint = some after ∧
      ctx.standsFor store (after.getCheckpoint ctx.lib) = some after := by
  obtain ⟨block, carries, accepted⟩ := chain.validated (height + 1) entry here
  have second := chain.second
  have high := chain.high
  have bound := (List.getElem?_eq_some_iff.mp here).1
  have early : ¬ ((height + 1 : Nat) : Int) < ctx.params.nBlockZerocoinV2 := by omega
  have tenth : ((height + 1 : Nat) : Int).tmod 10 = 0 := (tmod_ten _).mpr tenth
  have checked := chain.checked late
  rw [decide_eq_false early, accepts_iff_of_tenth checked tenth, carries] at accepted
  obtain ⟨after, calculated⟩ := accepted
  have regtest : (ctx.below (height + 1)).params.networkID = .regtest := chain.regtest
  have result := calculateAccumulatorCheckpoint_eq_ok regtest chain.activated
    (Int.not_lt.mp early) (by omega) tenth (indexAt_below found)
    (chain.filters (height + 1) (by omega) bound) stands rfl calculated
  obtain ⟨rfl, checkpoint⟩ := result
  have window : (ctx.below (height + 1)).mintsBetween fFilterInvalid
      (max start (height + 1 - 20)) (height + 1 - 10) =
      ctx.mintsBetween fFilterInvalid (max start (height + 1 - 20)) (height + 1 - 10) :=
    mintsBetween_below (by omega)
  rw [window] at checkpoint calculated
  have reached : ctx.Calculated store (height + 1) _ :=
    ⟨Int.not_lt.mp early, tenth, bound, _, calculated⟩
  have again := standsFor_getCheckpoint (chain.stored.values _ _ reached)
    (chain.stored.zero _ _ reached)
  refine ⟨?_, again⟩
  rw [checkpoint]
  split
  · rename_i none
    rw [none, stands]
    rfl
  · exact again

/-- **What the checkpoints of a chain stand for.** From the block before the start on,
each block stands for the values there and the mints of all whole windows below it. -/
theorem standsFor_chain (chain : ctx.Checkpointed store fFilterInvalid start)
    {prev : ChainEntry} {first : CoinDenomination → CBigNum}
    (before : ctx.chainActive[start - 1]? = some prev)
    (stands : ctx.standsFor store prev.nAccumulatorCheckpoint =
      some (AccumulatorMap.ofValues ctx.lib first)) (late : start ≤ height + 1)
    (here : ctx.chainActive[height]? = some entry) :
    ctx.standsFor store entry.nAccumulatorCheckpoint =
      some (AccumulatorMap.ofValues ctx.lib (AccumulatorMap.foldMints ctx.lib first
        (ctx.mintsBetween fFilterInvalid start (10 * (height / 10) - 10)))) := by
  have tenth := chain.tenth
  have high := chain.high
  -- from the block before the start up, one block after the other
  induction height generalizing entry with
  | zero => omega
  | succ height ih =>
      by_cases starts : start = height + 2
      · have same : height + 1 = start - 1 := by omega
        rw [same, before] at here
        cases here
        rw [mintsBetween_of_le (by omega)]
        exact stands
      · have bound := (List.getElem?_eq_some_iff.mp here).1
        obtain ⟨parent, found⟩ : ∃ parent, ctx.chainActive[height]? = some parent :=
          ⟨_, List.getElem?_eq_getElem (by omega)⟩
        have earlier := ih (by omega) found
        by_cases ends : (height + 1) % 10 = 0
        · have step := (chain.standsFor_of_tenth (by omega) ends found here earlier).1
          have middle : 10 * (height / 10) - 10 = height + 1 - 20 := by omega
          have stop : 10 * ((height + 1) / 10) - 10 = height + 1 - 10 := by omega
          rw [step, ← AccumulatorMap.foldMints_append, middle, stop, mintsBetween_window]
        · have same : (height + 1) / 10 = height / 10 := by omega
          rw [chain.carries_of_not_tenth (by omega) ends found here, same]
          exact earlier

/-- A checkpoint that stands for a map gives its values. -/
theorem exists_values {nCheckpoint : Uint256} {accumulators : AccumulatorMap}
    (stands : ctx.standsFor store nCheckpoint = some accumulators) :
    ∃ values, accumulators = AccumulatorMap.ofValues ctx.lib values := by
  unfold standsFor at stands
  split at stands
  · exact ⟨_, (Option.some.inj stands).symm.trans (AccumulatorMap.reset_eq_ofValues ctx.lib)⟩
  · rw [AccumulatorMap.reset_eq_ofValues] at stands
    exact AccumulatorMap.exists_of_load stands

/-- A chain that reaches the start has a checkpoint before it that stands for something. -/
theorem exists_first (chain : ctx.Checkpointed store fFilterInvalid start)
    (reaches : start < ctx.chainActive.length) :
    ∃ prev first, ctx.chainActive[start - 1]? = some prev ∧
      ctx.standsFor store prev.nAccumulatorCheckpoint =
        some (AccumulatorMap.ofValues ctx.lib first) := by
  have high := chain.high
  have second := chain.second
  obtain ⟨before, rfl⟩ : ∃ before, start = before + 1 := ⟨start - 1, by omega⟩
  obtain ⟨prev, found⟩ : ∃ prev, ctx.chainActive[before]? = some prev :=
    ⟨_, List.getElem?_eq_getElem (by omega)⟩
  obtain ⟨block, -, accepted⟩ := chain.validated (before + 1) _ (List.getElem?_eq_getElem reaches)
  have tenth : ((before + 1 : Nat) : Int).tmod 10 = 0 := (tmod_ten _).mpr chain.tenth
  have late : (ctx.below (before + 1)).params.nBlockZerocoinV2 ≤ (before + 1 : Nat) := by
    have same : (ctx.below (before + 1)).params.nBlockZerocoinV2 = ctx.params.nBlockZerocoinV2 :=
      rfl
    omega
  rw [accepts_iff_of_tenth (chain.checked le_rfl) tenth] at accepted
  obtain ⟨after, calculated⟩ := accepted
  rw [calculateAccumulatorCheckpoint, if_neg (Int.not_lt.mpr late),
    if_neg (not_not.mpr tenth)] at calculated
  split at calculated
  · cases calculated
  · rename_i storeAfter nHeightCheckpoint loaded init
    have regtest : (ctx.below (before + 1)).params.networkID = .regtest := chain.regtest
    obtain ⟨-, -, stands⟩ :=
      initializeAccumulators_eq_ok regtest late (indexAt_below found) init
    have stands : ctx.standsFor store prev.nAccumulatorCheckpoint = some loaded := stands
    obtain ⟨first, rfl⟩ := exists_values stands
    exact ⟨prev, first, found, stands⟩

end AccumulatorContext.Checkpointed

/-- **Each mint is accumulated exactly once.** At a height divisible by ten from the start
on, the checkpoint stands for the mints of the blocks from the start up to eleven below,
on top of what the checkpoint of the block before the start stands for. The checkpoint
that is computed from these values stands for them as well, also where the block keeps the
checkpoint before it. -/
theorem mints_accumulated_once (ctx : AccumulatorContext) (store : AccumulatorStore)
    (fFilterInvalid : Bool) (start : Nat) (chain : ctx.Checkpointed store fFilterInvalid start)
    (height : Nat) (entry : ChainEntry) (late : start ≤ height) (tenth : height % 10 = 0)
    (here : ctx.chainActive[height]? = some entry) :
    ∃ prev first, ctx.chainActive[start - 1]? = some prev ∧
      ctx.standsFor store prev.nAccumulatorCheckpoint =
        some (AccumulatorMap.ofValues ctx.lib first) ∧
      let after := AccumulatorMap.ofValues ctx.lib (AccumulatorMap.foldMints ctx.lib first
        (ctx.mintsBetween fFilterInvalid start (height - 10)))
      ctx.standsFor store entry.nAccumulatorCheckpoint = some after ∧
        ctx.standsFor store (after.getCheckpoint ctx.lib) = some after := by
  have bound := (List.getElem?_eq_some_iff.mp here).1
  have high := chain.high
  obtain ⟨prev, first, before, stands⟩ := chain.exists_first (by omega)
  obtain ⟨below, rfl⟩ : ∃ below, height = below + 1 := ⟨height - 1, by omega⟩
  obtain ⟨parent, found⟩ : ∃ parent, ctx.chainActive[below]? = some parent :=
    ⟨_, List.getElem?_eq_getElem (by omega)⟩
  have earlier := chain.standsFor_chain before stands (by omega) found
  have windows := chain.standsFor_of_tenth late tenth found here earlier
  have middle : 10 * (below / 10) - 10 = below + 1 - 20 := by omega
  dsimp only at windows
  rw [← AccumulatorMap.foldMints_append, middle,
    AccumulatorContext.mintsBetween_window] at windows
  exact ⟨prev, first, before, stands, windows⟩

/-! ## Chains of the examples -/

/-- Zerocoins from height 20 on, and a row of blocks with checkpoints. -/
def checkpointContext (checkpoints : List (Uint256 × List CTransaction)) : AccumulatorContext where
  params := { CChainParams.regtest with nZerocoinStartHeight := 20, nBlockZerocoinV2 := 20 }
  lib := Libzerocoin.plain
  chainActive := checkpoints.map fun entry =>
    ⟨entry.1, some { blockCarrying entry.1 with vtx := entry.2 }⟩
  fVerifyingBlocks := false
  shutdownRequested := false
  validOutPoint _ := true
  mapCheckpoints := []

/-- Every value under its checksum. -/
def plainStore : AccumulatorStore where
  zerocoinDB nChecksum := some nChecksum.toNat
  mapAccumulatorValues _ := none

/-- The checkpoint of a block is accepted, and what is calculated for it can be read
back. -/
def AccumulatorContext.passesAt (ctx : AccumulatorContext) (store : AccumulatorStore)
    (height : Nat) : Bool :=
  let accumulators :=
    AccumulatorMap.reset ctx.lib (decide ((height : Int) < ctx.params.nBlockZerocoinV2))
  let block := blockCarrying (ctx.chainActive[height]?.elim 0 ChainEntry.nAccumulatorCheckpoint)
  (validateAccumulatorCheckpoint (ctx.below height) block height
    ((ctx.below height).parentOf height) store accumulators).2.isOk &&
  match (calculateAccumulatorCheckpoint (ctx.below height) height store
      (AccumulatorMap.reset ctx.lib false)).2 with
  | .error _ => true
  | .ok (_, after) => after.getCheckpoint ctx.lib != 0 &&
      zerocoinDenomList.all fun denom =>
        store.zerocoinDB (ctx.lib.getChecksum (after.mapAccumulators denom).value) ==
          some (after.mapAccumulators denom).value

/-- A chain whose heights pass, one by one. -/
theorem checkpointed_of_passesAt {checkpoints : List (Uint256 × List CTransaction)}
    (short : checkpoints.length ≤ 100)
    (passes : ∀ height < checkpoints.length,
      (checkpointContext checkpoints).passesAt plainStore height = true) :
    (checkpointContext checkpoints).Checkpointed plainStore false 20 := by
  have length : (checkpointContext checkpoints).chainActive.length = checkpoints.length :=
    List.length_map _
  refine ⟨rfl, rfl, rfl, rfl, le_rfl, ?_, rfl, ?_, ?_⟩
  · intro height _ bound
    have recalculates : (checkpointContext checkpoints).params.nBlockRecalculateAccumulators =
      999999999 := rfl
    rw [length] at bound
    rw [recalculates, decide_eq_false]
    omega
  · intro height entry here
    have bound := (List.getElem?_eq_some_iff.mp here).1
    rw [length] at bound
    have passed := (Bool.and_eq_true_iff.mp (passes height bound)).1
    rw [here, Option.elim_some] at passed
    refine ⟨blockCarrying entry.nAccumulatorCheckpoint, rfl, ?_⟩
    unfold AccumulatorContext.accepts
    revert passed
    generalize (validateAccumulatorCheckpoint _ _ _ _ _ _).2 = result
    cases result with
    | error failure => exact nofun
    | ok after => exact fun _ => ⟨after, rfl⟩
  · have read : ∀ height accumulators,
        (checkpointContext checkpoints).Calculated plainStore height accumulators →
        accumulators.getCheckpoint (checkpointContext checkpoints).lib ≠ 0 ∧
        ∀ denom ∈ zerocoinDenomList,
          plainStore.zerocoinDB ((checkpointContext checkpoints).lib.getChecksum
            (accumulators.mapAccumulators denom).value) =
            some (accumulators.mapAccumulators denom).value := by
      rintro height accumulators ⟨_, _, bound, nCheckpoint, calculated⟩
      rw [length] at bound
      have passed := (Bool.and_eq_true_iff.mp (passes height bound)).2
      rw [calculated] at passed
      simpa using passed
    refine ⟨fun height accumulators calculated => (read height accumulators calculated).2, ?_⟩
    intro height accumulators calculated zero
    exact absurd zero (read height accumulators calculated).1

/-- Blocks up to height 40, with a mint in the first of them that counts. The first twenty
carry no checkpoint, and neither do those before the mint is old enough. -/
def accumulatedChain : AccumulatorContext :=
  checkpointContext (List.replicate 20 (0, []) ++
    (0, [{ hash := 9000, vin := [], vout := [⟨COIN, [0xc1, 0, 0, 0, 0, 0, 7], -10⟩] }]) ::
      List.replicate 19 (0, []) ++
    [((AccumulatorMap.ofValues Libzerocoin.plain (AccumulatorMap.foldMints Libzerocoin.plain
      (fun _ => 961) [⟨7, .one⟩])).getCheckpoint Libzerocoin.plain, [])])

/-- The chain of the example keeps the checkpoint rule. -/
theorem checkpointed_accumulatedChain :
    accumulatedChain.Checkpointed plainStore false 20 := by
  apply checkpointed_of_passesAt
  · decide
  · decide +kernel

/-- The mint is accumulated at height 40. -/
theorem mints_accumulated_once_accumulatedChain :
    accumulatedChain.mintsBetween false 20 30 = [⟨7, .one⟩] ∧
    ∃ entry, accumulatedChain.chainActive[40]? = some entry ∧
    ∃ prev first, accumulatedChain.chainActive[20 - 1]? = some prev ∧
      accumulatedChain.standsFor plainStore prev.nAccumulatorCheckpoint =
        some (AccumulatorMap.ofValues accumulatedChain.lib first) ∧
      let after := AccumulatorMap.ofValues accumulatedChain.lib
        (AccumulatorMap.foldMints accumulatedChain.lib first
          (accumulatedChain.mintsBetween false 20 (40 - 10)))
      accumulatedChain.standsFor plainStore entry.nAccumulatorCheckpoint = some after ∧
        accumulatedChain.standsFor plainStore (after.getCheckpoint accumulatedChain.lib) =
          some after := by
  refine ⟨by decide +kernel, _, rfl, ?_⟩
  exact mints_accumulated_once accumulatedChain plainStore false 20 checkpointed_accumulatedChain
    40 _ (by decide) (by decide) rfl

/-- A chain whose blocks below the start carry a checkpoint of their own. -/
def carriedChain : AccumulatorContext :=
  checkpointContext (List.replicate 21 ((AccumulatorMap.ofValues Libzerocoin.plain
    fun _ => 5).getCheckpoint Libzerocoin.plain, []))

/-- The checkpoint at the start stands for what was carried, and not for fresh
accumulators. -/
theorem not_mints_accumulated_once_carriedChain :
    ¬ ∀ (ctx : AccumulatorContext) (store : AccumulatorStore) (fFilterInvalid : Bool) (start : Nat),
      ctx.Checkpointed store fFilterInvalid start →
      ∀ (height : Nat) (entry : ChainEntry), start ≤ height → height % 10 = 0 →
      ctx.chainActive[height]? = some entry →
      ctx.standsFor store entry.nAccumulatorCheckpoint =
        some (AccumulatorMap.ofValues ctx.lib (AccumulatorMap.foldMints ctx.lib
          (fun _ => ctx.lib.accumulatorBase false)
          (ctx.mintsBetween fFilterInvalid start (height - 10)))) := by
  intro once
  have chain : carriedChain.Checkpointed plainStore false 20 := by
    apply checkpointed_of_passesAt
    · decide
    · decide +kernel
  have fresh := once carriedChain plainStore false 20 chain 20 _ le_rfl rfl rfl
  have values := congrArg
    (Option.map fun accumulators => (accumulators.mapAccumulators .one).value) fresh
  revert values
  decide +kernel

end GiantCore
