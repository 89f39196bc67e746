import GiantCore.Chain.Retarget
import GiantCore.Primitives.BaseUint

/-! # The compact form of a number

`GetCompact` keeps the leading bytes of a number of 256 bits, and `SetCompact` puts them back
(`target_setCompact_getCompact`). Compact forms are in the order of the numbers, and one in normal
form comes back from its number (`getCompact_setCompact`). Both are here as the words of
`base_uint` compute them.
-/

namespace GiantCore

open GiantCore.Foundation

namespace Uint256

/-! ## Mantissa and size -/

/-- A mantissa in its range, and the number of bytes at whose end it stands. -/
structure CompactOf (mantissa nSize number : Nat) : Prop where
  least : 2 ^ 15 ≤ mantissa
  most : mantissa < 2 ^ 23
  below : mantissa * 256 ^ nSize ≤ number * 256 ^ 3
  above : number * 256 ^ 3 < (mantissa + 1) * 256 ^ nSize

/-- The greater number has no smaller compact form. -/
theorem CompactOf.le {mantissa nSize number mantissa' nSize' number' : Nat}
    (one : CompactOf mantissa nSize number) (two : CompactOf mantissa' nSize' number')
    (order : number ≤ number') : mantissa + nSize * 2 ^ 24 ≤ mantissa' + nSize' * 2 ^ 24 := by
  have most := one.most
  have scaled : number * 256 ^ 3 ≤ number' * 256 ^ 3 := Nat.mul_le_mul_right _ order
  have sizes : nSize ≤ nSize' := by
    by_contra longer
    have power : 256 ^ (nSize' + 1) ≤ 256 ^ nSize := Nat.pow_le_pow_right (by decide) (by omega)
    have low : 2 ^ 15 * 256 ^ (nSize' + 1) ≤ mantissa * 256 ^ nSize :=
      Nat.mul_le_mul one.least power
    have high : (mantissa' + 1) * 256 ^ nSize' ≤ 2 ^ 23 * 256 ^ nSize' :=
      Nat.mul_le_mul_right _ two.most
    have same : 2 ^ 15 * 256 ^ (nSize' + 1) = 2 ^ 23 * 256 ^ nSize' := by
      rw [Nat.pow_succ]
      ring
    have below := one.below
    have above := two.above
    omega
  by_cases same : nSize = nSize'
  · subst same
    have less : mantissa * 256 ^ nSize < (mantissa' + 1) * 256 ^ nSize :=
      lt_of_le_of_lt (le_trans one.below scaled) two.above
    have mantissas := Nat.lt_of_mul_lt_mul_right less
    omega
  · omega

/-- The compact form of a number is one of its mantissas and sizes, and there is no other. -/
theorem getCompact_eq_of_compactOf {word : Uint256} {mantissa nSize : Nat}
    (form : CompactOf mantissa nSize word.toNat) (positive : 0 < word.toNat) :
    getCompact word = mantissa + nSize * 2 ^ 24 := by
  obtain ⟨mantissa', nSize', value, least, most, below, above⟩ := getCompact_spec positive
  have form' : CompactOf mantissa' nSize' word.toNat := ⟨least, most, below, above⟩
  rw [value]
  exact le_antisymm (form'.le form (le_refl _)) (form.le form' (le_refl _))

/-- The compact form of a positive number. -/
theorem exists_compactOf {word : Uint256} (positive : 0 < word.toNat) :
    ∃ mantissa nSize, getCompact word = mantissa + nSize * 2 ^ 24 ∧
      CompactOf mantissa nSize word.toNat ∧ nSize ≤ 33 ∧ (nSize = 33 → mantissa ≤ 0xffff) := by
  obtain ⟨mantissa, nSize, value, least, most, below, above⟩ := getCompact_spec positive
  have bound := word.isLt
  refine ⟨mantissa, nSize, value, ⟨least, most, below, above⟩, ?_, ?_⟩
  · by_contra longer
    have power : 256 ^ 34 ≤ 256 ^ nSize := Nat.pow_le_pow_right (by decide) (by omega)
    have low : 2 ^ 15 * 256 ^ 34 ≤ mantissa * 256 ^ nSize := Nat.mul_le_mul least power
    omega
  · rintro rfl
    omega

/-- **Compact forms keep the order.** -/
theorem getCompact_mono {first second : Uint256} (order : first.toNat ≤ second.toNat) :
    getCompact first ≤ getCompact second := by
  obtain zero | positive := Nat.eq_zero_or_pos first.toNat
  · have same : first = 0 := BitVec.eq_of_toNat_eq zero
    rw [same, show getCompact 0 = 0 from rfl]
    exact Nat.zero_le _
  · obtain ⟨mantissa, nSize, value, form, -⟩ := exists_compactOf positive
    obtain ⟨mantissa', nSize', value', form', -⟩ :=
      exists_compactOf (lt_of_lt_of_le positive order)
    rw [value, value']
    exact form.le form' order

theorem getCompact_lt (word : Uint256) : getCompact word < 2 ^ 32 := by
  obtain zero | positive := Nat.eq_zero_or_pos word.toNat
  · have same : word = 0 := BitVec.eq_of_toNat_eq zero
    rw [same]
    decide
  · obtain ⟨mantissa, nSize, value, form, small, -⟩ := exists_compactOf positive
    have most := form.most
    omega

/-- The size of a compact form counts the bytes, and one more if the highest bit is set. -/
theorem CompactOf.size_eq {mantissa nSize : Nat} {word : Uint256}
    (form : CompactOf mantissa nSize word.toNat) (positive : 0 < word.toNat) :
    nSize = word.bits / 8 + 1 := by
  have nonzero : word ≠ 0 := by
    rintro rfl
    exact absurd positive (by decide)
  have size : word.bits = word.toNat.log2 + 1 := if_neg nonzero
  have low := Nat.log2_self_le (Nat.pos_iff_ne_zero.mp positive)
  have high := Nat.lt_log2_self (n := word.toNat)
  have bytes : (256 : Nat) ^ nSize = 2 ^ (8 * nSize) := by rw [Nat.pow_mul]
  have three : (256 : Nat) ^ 3 = 2 ^ 24 := rfl
  have below := form.below
  have above := form.above
  rw [bytes] at below above
  have upper : 2 ^ (word.toNat.log2 + 24) < 2 ^ (8 * nSize + 23) := by
    calc 2 ^ (word.toNat.log2 + 24) = 2 ^ word.toNat.log2 * 256 ^ 3 := by rw [Nat.pow_add, three]
      _ ≤ word.toNat * 256 ^ 3 := Nat.mul_le_mul_right _ low
      _ < (mantissa + 1) * 2 ^ (8 * nSize) := above
      _ ≤ 2 ^ 23 * 2 ^ (8 * nSize) := Nat.mul_le_mul_right _ form.most
      _ = 2 ^ (8 * nSize + 23) := by rw [Nat.pow_add, Nat.mul_comm]
  have lower : 2 ^ (8 * nSize + 15) < 2 ^ (word.toNat.log2 + 1 + 24) := by
    calc 2 ^ (8 * nSize + 15) = 2 ^ 15 * 2 ^ (8 * nSize) := by rw [Nat.pow_add, Nat.mul_comm]
      _ ≤ mantissa * 2 ^ (8 * nSize) := Nat.mul_le_mul_right _ form.least
      _ ≤ word.toNat * 256 ^ 3 := below
      _ < 2 ^ (word.toNat.log2 + 1) * 256 ^ 3 :=
          Nat.mul_lt_mul_of_pos_right high (by decide)
      _ = 2 ^ (word.toNat.log2 + 1 + 24) := by rw [Nat.pow_add _ _ 24, three]
  have first := (Nat.pow_lt_pow_iff_right (by decide)).mp upper
  have second := (Nat.pow_lt_pow_iff_right (by decide)).mp lower
  omega

/-! ## Reading a compact form -/

/-- The parts of a compact form without the sign bit. -/
theorem setCompact_parts {nCompact : UInt32} {mantissa nSize : Nat} (small : mantissa < 2 ^ 23)
    (parts : nCompact.toNat = mantissa + nSize * 2 ^ 24) :
    nCompact.toNat >>> 24 = nSize ∧ nCompact.toNat &&& 0x007fffff = mantissa ∧
      nCompact.toNat &&& 0x00800000 = 0 := by
  have low : nCompact.toNat &&& 0x007fffff = nCompact.toNat % 2 ^ 23 :=
    Nat.and_two_pow_sub_one_eq_mod nCompact.toNat 23
  have sign : nCompact.toNat &&& 0x00800000 = (nCompact.toNat.testBit 23).toNat * 2 ^ 23 :=
    Nat.and_two_pow nCompact.toNat 23
  have clear : nCompact.toNat.testBit 23 = false := by
    rw [Nat.testBit_eq_decide_div_mod_eq, decide_eq_false_iff_not]
    omega
  rw [low, sign, clear, Nat.shiftRight_eq_div_pow]
  exact ⟨by omega, by omega, rfl⟩

/-- The target of a compact form, scaled by three bytes, is its mantissa behind its size. -/
theorem target_eq {nCompact : UInt32} {mantissa nSize : Nat} (small : mantissa < 2 ^ 23)
    (parts : nCompact.toNat = mantissa + nSize * 2 ^ 24)
    (fits : 3 < nSize → mantissa * 256 ^ (nSize - 3) < 2 ^ 256) :
    (setCompact nCompact).target.toNat =
      if nSize ≤ 3 then mantissa / 256 ^ (3 - nSize) else mantissa * 256 ^ (nSize - 3) := by
  obtain ⟨size, word, -⟩ := setCompact_parts small parts
  have bytes (count : Nat) : (2 : Nat) ^ (8 * count) = 256 ^ count := by
    rw [Nat.pow_mul]
  unfold setCompact
  dsimp only
  rw [size, word]
  by_cases short : nSize ≤ 3
  · rw [if_pos short, if_pos short, if_pos short, BitVec.toNat_ofNat,
      Nat.shiftRight_eq_div_pow, bytes]
    have less : mantissa / 256 ^ (3 - nSize) ≤ mantissa := Nat.div_le_self _ _
    exact Nat.mod_eq_of_lt (by omega)
  · rw [if_neg short, if_neg short, if_neg short, BitVec.toNat_shiftLeft, BitVec.toNat_ofNat,
      Nat.shiftLeft_eq, bytes, Nat.mod_eq_of_lt (by omega : mantissa < 2 ^ 256)]
    exact Nat.mod_eq_of_lt (fits (Nat.not_le.mp short))

/-- The bytes of a mantissa: three, or two if the highest bit of the first is set. -/
def mantissaBytes (word : Uint256) : Nat := if word.bits % 8 = 0 then 2 else 3

/-- A number with all bytes but those of its mantissa set to zero. -/
def leadingPart (word : Uint256) : Nat :=
  let zeroed := (word.bits + 7) / 8 - mantissaBytes word
  word.toNat / 256 ^ zeroed * 256 ^ zeroed

theorem leadingPart_le (word : Uint256) : leadingPart word ≤ word.toNat :=
  Nat.div_mul_le_self _ _

/-- **A compact form keeps the leading bytes.** -/
theorem target_setCompact_getCompact (word : Uint256) :
    (setCompact (UInt32.ofNat (getCompact word))).target.toNat = leadingPart word := by
  obtain zero | positive := Nat.eq_zero_or_pos word.toNat
  · have same : word = 0 := BitVec.eq_of_toNat_eq zero
    rw [same]
    decide
  obtain ⟨mantissa, nSize, value, form, small, -⟩ := exists_compactOf positive
  have size := form.size_eq positive
  have most := form.most
  have parts : (UInt32.ofNat (getCompact word)).toNat = mantissa + nSize * 2 ^ 24 := by
    rw [UInt32.toNat_ofNat', Nat.mod_eq_of_lt (getCompact_lt word), value]
  have zeroed : (word.bits + 7) / 8 - mantissaBytes word = nSize - 3 := by
    unfold mantissaBytes
    split <;> omega
  have scale (count : Nat) : 0 < 256 ^ count := Nat.pow_pos (by decide)
  rw [leadingPart, zeroed]
  by_cases short : nSize ≤ 3
  · -- All bytes stand in the mantissa.
    have exact : mantissa = word.toNat * 256 ^ (3 - nSize) := by
      have split : 256 ^ 3 = 256 ^ (3 - nSize) * 256 ^ nSize := by
        rw [← Nat.pow_add]
        congr 1
        omega
      have below := form.below
      have above := form.above
      rw [split, ← Nat.mul_assoc] at below above
      have least := Nat.le_of_mul_le_mul_right below (scale nSize)
      have less := Nat.lt_of_mul_lt_mul_right above
      omega
    rw [target_eq most parts (by omega), if_pos short, exact, Nat.mul_div_cancel _ (scale _),
      Nat.sub_eq_zero_of_le short, Nat.pow_zero, Nat.div_one, Nat.mul_one]
  · have split : 256 ^ nSize = 256 ^ (nSize - 3) * 256 ^ 3 := by
      rw [← Nat.pow_add]
      congr 1
      omega
    have below := form.below
    have above := form.above
    rw [split, ← Nat.mul_assoc] at below above
    have least := Nat.le_of_mul_le_mul_right below (scale 3)
    have less := Nat.lt_of_mul_lt_mul_right above
    have quotient : word.toNat / 256 ^ (nSize - 3) = mantissa :=
      Nat.div_eq_of_lt_le least less
    rw [target_eq most parts (fun _ => lt_of_le_of_lt least word.isLt), if_neg short, quotient]

/-- The compact form of a number is neither negative nor too large. -/
theorem flags_setCompact_getCompact (word : Uint256) :
    (setCompact (UInt32.ofNat (getCompact word))).fNegative = false ∧
      (setCompact (UInt32.ofNat (getCompact word))).fOverflow = false := by
  obtain zero | positive := Nat.eq_zero_or_pos word.toNat
  · have same : word = 0 := BitVec.eq_of_toNat_eq zero
    rw [same]
    decide
  obtain ⟨mantissa, nSize, value, form, small, top⟩ := exists_compactOf positive
  have parts : (UInt32.ofNat (getCompact word)).toNat = mantissa + nSize * 2 ^ 24 := by
    rw [UInt32.toNat_ofNat', Nat.mod_eq_of_lt (getCompact_lt word), value]
  obtain ⟨size, low, sign⟩ := setCompact_parts form.most parts
  unfold setCompact
  dsimp only
  rw [size, low, sign]
  refine ⟨Bool.and_false _, ?_⟩
  by_cases short : nSize ≤ 3
  · simp
    omega
  · rw [if_neg short]
    simp
    omega

/-- A compact form in normal form: no sign, and a mantissa in its range of which no byte is lost, in
256 bits. -/
structure Canonical (nCompact : UInt32) : Prop where
  positive : nCompact.toNat &&& 0x00800000 = 0
  normal : nCompact = 0 ∨ 0x8000 ≤ nCompact.toNat &&& 0x007fffff ∧
    256 ^ (3 - nCompact.toNat >>> 24) ∣ nCompact.toNat &&& 0x007fffff
  inRange : (setCompact nCompact).fOverflow = false

/-- **A compact form in normal form comes back.** -/
theorem getCompact_setCompact {nCompact : UInt32} (canonical : Canonical nCompact) :
    getCompact (setCompact nCompact).target = nCompact.toNat := by
  obtain ⟨positive, normal, inRange⟩ := canonical
  obtain rfl | ⟨least, bytes⟩ := normal
  · decide
  have low : nCompact.toNat &&& 0x007fffff = nCompact.toNat % 2 ^ 23 :=
    Nat.and_two_pow_sub_one_eq_mod nCompact.toNat 23
  have sign : nCompact.toNat &&& 0x00800000 = (nCompact.toNat.testBit 23).toNat * 2 ^ 23 :=
    Nat.and_two_pow nCompact.toNat 23
  have clear : ¬ nCompact.toNat / 2 ^ 23 % 2 = 1 := by
    rw [sign, Nat.testBit_eq_decide_div_mod_eq] at positive
    intro set
    rw [decide_eq_true set] at positive
    cases positive
  have high : nCompact.toNat >>> 24 = nCompact.toNat / 2 ^ 24 := Nat.shiftRight_eq_div_pow ..
  obtain ⟨mantissa, mantissaEq⟩ : ∃ mantissa, nCompact.toNat % 2 ^ 23 = mantissa := ⟨_, rfl⟩
  obtain ⟨nSize, sizeEq⟩ : ∃ nSize, nCompact.toNat / 2 ^ 24 = nSize := ⟨_, rfl⟩
  have parts : nCompact.toNat = mantissa + nSize * 2 ^ 24 := by omega
  have most : mantissa < 2 ^ 23 := by omega
  rw [low, mantissaEq] at least bytes
  rw [high, sizeEq] at bytes
  have scale (count : Nat) : 0 < 256 ^ count := Nat.pow_pos (by decide)
  have fits : 3 < nSize → mantissa * 256 ^ (nSize - 3) < 2 ^ 256 := by
    intro long
    have flags :
        ¬ (nSize > 34 ∨ mantissa > 0xff ∧ nSize > 33 ∨ mantissa > 0xffff ∧ nSize > 32) := by
      unfold setCompact at inRange
      dsimp only at inRange
      rw [high, low, sizeEq, mantissaEq, if_neg (by omega : ¬ nSize ≤ 3)] at inRange
      intro outside
      have some_ : mantissa ≠ 0 := by omega
      simp [some_] at inRange
      omega
    by_cases top : nSize = 33
    · subst top
      have short : mantissa < 2 ^ 16 := by omega
      exact lt_of_lt_of_le (Nat.mul_lt_mul_of_pos_right short (scale _)) (by decide +kernel)
    · have power : 256 ^ (nSize - 3) ≤ 256 ^ 29 := Nat.pow_le_pow_right (by decide) (by omega)
      calc mantissa * 256 ^ (nSize - 3) ≤ mantissa * 256 ^ 29 := Nat.mul_le_mul_left _ power
        _ < 2 ^ 23 * 256 ^ 29 := Nat.mul_lt_mul_of_pos_right most (scale _)
        _ ≤ 2 ^ 256 := by decide +kernel
  have target := target_eq most parts fits
  have scaled : (setCompact nCompact).target.toNat * 256 ^ 3 = mantissa * 256 ^ nSize := by
    rw [target]
    split
    · rename_i short
      have split : 256 ^ 3 = 256 ^ (3 - nSize) * 256 ^ nSize := by
        rw [← Nat.pow_add]
        congr 1
        omega
      rw [split, ← Nat.mul_assoc, Nat.div_mul_cancel bytes]
    · rename_i long
      rw [Nat.mul_assoc, ← Nat.pow_add]
      congr 2
      omega
  have form : CompactOf mantissa nSize (setCompact nCompact).target.toNat := by
    refine ⟨least, most, le_of_eq scaled.symm, ?_⟩
    rw [scaled]
    exact Nat.mul_lt_mul_of_pos_right (Nat.lt_succ_self _) (scale _)
  have some_ : 0 < (setCompact nCompact).target.toNat := by
    by_contra none
    have zero : (setCompact nCompact).target.toNat = 0 := by omega
    rw [zero, Nat.zero_mul] at scaled
    have product := Nat.mul_pos (by omega : 0 < mantissa) (scale nSize)
    omega
  rw [getCompact_eq_of_compactOf form some_, parts]

end Uint256

/-! ## In words -/

/-- The eight words of a `uint256`. -/
structure Words256 where
  pn : List Nat
  length : pn.length = 8
  bounded : Limbs.Bounded 32 pn

namespace Words256

open BaseUint

/-- The number in the words. -/
def number (x : Words256) : Nat := Limbs.value 32 x.pn

/-- `GetLow64`. -/
def getLow64 (pn : List Nat) : Nat := pn.getD 0 0 ||| pn.getD 1 0 <<< 32

/-- `operator=` with a number of 32 bits. -/
def ofWord (word : Nat) : List Nat := word :: List.replicate 7 0

/-- `SetCompact`: the words, and whether the number is negative or overflows. -/
def setCompact (nCompact : UInt32) : List Nat × Bool × Bool :=
  let nSize := nCompact.toNat >>> 24
  let mantissa := nCompact.toNat &&& 0x007fffff
  let nWord := if nSize ≤ 3 then mantissa >>> (8 * (3 - nSize)) else mantissa
  (if nSize ≤ 3 then ofWord nWord else shiftLeft (ofWord nWord) (8 * (nSize - 3)),
    nWord != 0 && nCompact.toNat &&& 0x00800000 != 0,
    nWord != 0 && (nSize > 34 || (nWord > 0xff && nSize > 33) || (nWord > 0xffff && nSize > 32)))

/-- `GetCompact` without a sign, with nothing where an assertion fails. -/
def getCompact (pn : List Nat) : Option Nat :=
  let nSize := (bits pn + 7) / 8
  let nCompact :=
    if nSize ≤ 3 then getLow64 pn <<< (8 * (3 - nSize)) % 2 ^ 64 % 2 ^ 32
    else getLow64 (shiftRight pn (8 * (nSize - 3))) % 2 ^ 32
  let (nCompact, nSize) :=
    if nCompact &&& 0x00800000 ≠ 0 then (nCompact >>> 8, nSize + 1) else (nCompact, nSize)
  if nCompact &&& 0xff800000 = 0 ∧ nSize < 256 then some (nCompact ||| nSize <<< 24) else none

variable (x : Words256)

theorem number_lt : x.number < 2 ^ 256 := by
  have below := Limbs.value_lt x.bounded
  rw [x.length] at below
  exact below

/-- The words as a bit vector. -/
def word : Uint256 := BitVec.ofNat 256 x.number

@[simp] theorem toNat_word : x.word.toNat = x.number := by
  rw [word, BitVec.toNat_ofNat, Nat.mod_eq_of_lt x.number_lt]

/-- The loop over the bits finds the size. -/
theorem bits_eq : bits x.pn = x.word.bits := by
  obtain ⟨below, above⟩ := bits_spec x.bounded
  change x.number < _ at below
  change _ → _ ≤ x.number at above
  by_cases zero : x.word = 0
  · have none : x.number = 0 := by rw [← toNat_word, zero]; rfl
    have power := Nat.two_pow_pos (bits x.pn - 1)
    rw [Uint256.bits, if_pos zero]
    by_contra some_
    have least := above (Nat.pos_of_ne_zero some_)
    omega
  · have nonzero : x.number ≠ 0 := by
      intro none
      exact zero (BitVec.eq_of_toNat_eq (by rw [toNat_word, none]; rfl))
    have positive : 0 < bits x.pn := by
      by_contra none
      rw [Nat.eq_zero_of_not_pos none] at below
      omega
    have log : x.number.log2 = bits x.pn - 1 :=
      (Nat.log2_eq_iff nonzero).mpr ⟨above positive, by rwa [Nat.sub_add_cancel positive]⟩
    rw [Uint256.bits, if_neg zero, toNat_word, log]
    omega

/-- The two lowest words are the lowest 64 bits. -/
theorem getLow64_eq {pn : List Nat} (bounded : Limbs.Bounded 32 pn) :
    getLow64 pn = Limbs.value 32 pn % 2 ^ 64 := by
  match pn, bounded with
  | [], _ => rfl
  | [first], bounded =>
      have small := bounded first (.head _)
      rw [Limbs.value_cons, Limbs.value_nil, Nat.mul_zero, Nat.add_zero,
        Nat.mod_eq_of_lt (by omega), getLow64, List.getD_cons_zero, List.getD_cons_succ,
        List.getD_nil, Nat.zero_shiftLeft, Nat.or_zero]
  | first :: second :: rest, bounded =>
      have small := bounded first (.head _)
      have small' := bounded second (.tail _ (.head _))
      have sum : second <<< 32 + first = second <<< 32 ||| first :=
        Nat.shiftLeft_add_eq_or_of_lt small second
      rw [getLow64, List.getD_cons_zero, List.getD_cons_succ, List.getD_cons_zero, Nat.or_comm,
        ← sum, Nat.shiftLeft_eq, Limbs.value_cons, Limbs.value_cons]
      generalize Limbs.value 32 rest = above
      omega

/-- No bit of a mantissa is above its range. -/
theorem mask_eq_zero {mantissa : Nat} (small : mantissa < 2 ^ 23) :
    mantissa &&& 0xff800000 = 0 := by
  refine Nat.eq_of_testBit_eq fun i => ?_
  rw [Nat.testBit_and, Nat.zero_testBit, show 0xff800000 = 0x1ff <<< 23 from rfl,
    Nat.testBit_shiftLeft]
  by_cases low : i < 23
  · simp [Nat.not_le.mpr low]
  · have clear : mantissa.testBit i = false :=
      Nat.testBit_lt_two_pow (lt_of_lt_of_le small (Nat.pow_le_pow_right (by decide) (by omega)))
    rw [clear, Bool.false_and]

/-- The words are compressed as the number is, and the assertions hold. -/
theorem getCompact_eq : getCompact x.pn = some (Uint256.getCompact x.word) := by
  obtain zero | positive := Nat.eq_zero_or_pos x.number
  · have none : x.word = 0 := BitVec.eq_of_toNat_eq (by rw [toNat_word, zero]; rfl)
    have low : getLow64 x.pn = 0 := by
      rw [getLow64_eq x.bounded]
      change x.number % 2 ^ 64 = 0
      rw [zero, Nat.zero_mod]
    have size : bits x.pn = 0 := by
      rw [bits_eq, none]
      rfl
    have value : Uint256.getCompact 0 = 0 := rfl
    rw [none, value, getCompact, size, low]
    simp
  have size : x.word.bits ≤ 256 := by
    have nonzero : x.number ≠ 0 := by omega
    have log := (Nat.log2_lt nonzero).mpr x.number_lt
    rw [Uint256.bits, toNat_word]
    split <;> omega
  obtain ⟨c, same, least, most, -, -⟩ :=
    @Uint256.exists_firstBytes x.word (by rw [toNat_word]; exact positive)
  have read : (if (bits x.pn + 7) / 8 ≤ 3 then
        getLow64 x.pn <<< (8 * (3 - (bits x.pn + 7) / 8)) % 2 ^ 64 % 2 ^ 32
      else getLow64 (shiftRight x.pn (8 * ((bits x.pn + 7) / 8 - 3))) % 2 ^ 32) = c := by
    rw [bits_eq]
    rw [toNat_word] at same
    split at same
    · rename_i short
      have below : x.number ≤ c := by
        rw [← same, Nat.shiftLeft_eq]
        exact Nat.le_mul_of_pos_right _ (Nat.two_pow_pos _)
      have low : getLow64 x.pn = x.number := by
        rw [getLow64_eq x.bounded]
        exact Nat.mod_eq_of_lt (by change x.number < _; omega)
      rw [if_pos short, low, same]
      omega
    · rename_i long
      obtain ⟨-, fits, value⟩ := value_shiftRight x.bounded (8 * ((x.word.bits + 7) / 8 - 3))
      rw [if_neg long, getLow64_eq fits, value, ← Nat.shiftRight_eq_div_pow]
      change x.number >>> _ % 2 ^ 64 % 2 ^ 32 = c
      rw [same]
      omega
  unfold getCompact Uint256.getCompact
  dsimp only
  rw [read, same, bits_eq]
  have sign : c &&& 0x00800000 = (c.testBit 23).toNat * 2 ^ 23 := Nat.and_two_pow c 23
  by_cases large : 2 ^ 23 ≤ c
  · have bit : c / 2 ^ 23 % 2 = 1 := by omega
    have set : c &&& 0x00800000 ≠ 0 := by
      rw [sign, Nat.testBit_eq_decide_div_mod_eq, decide_eq_true bit]
      decide
    have shifted : c >>> 8 < 2 ^ 23 := by
      rw [Nat.shiftRight_eq_div_pow]
      omega
    rw [if_pos set, if_pos set]
    exact if_pos ⟨mask_eq_zero shifted, by omega⟩
  · have bit : ¬ c / 2 ^ 23 % 2 = 1 := by omega
    have clear : ¬ c &&& 0x00800000 ≠ 0 := by
      rw [sign, Nat.testBit_eq_decide_div_mod_eq, decide_eq_false bit]
      decide
    rw [if_neg clear, if_neg clear]
    exact if_pos ⟨mask_eq_zero (Nat.not_le.mp large), by omega⟩

/-- The words that `SetCompact` makes are those of its target, with the flags. -/
theorem setCompact_spec (nCompact : UInt32) :
    ∃ x : Words256, setCompact nCompact =
        (x.pn, (Uint256.setCompact nCompact).fNegative, (Uint256.setCompact nCompact).fOverflow) ∧
      x.number = (Uint256.setCompact nCompact).target.toNat := by
  have mantissa : nCompact.toNat &&& 0x007fffff < 2 ^ 32 :=
    Nat.lt_of_le_of_lt Nat.and_le_right (by decide)
  have words {word : Nat} (small : word < 2 ^ 32) :
      (ofWord word).length = 8 ∧ Limbs.Bounded 32 (ofWord word) ∧
        Limbs.value 32 (ofWord word) = word := by
    refine ⟨rfl, ?_, ?_⟩
    · intro other mem
      obtain rfl | later := List.mem_cons.mp mem
      · exact small
      · exact Limbs.bounded_replicate_zero 7 other later
    · rw [ofWord, Limbs.value_cons, Limbs.value_replicate_zero, Nat.mul_zero, Nat.add_zero]
  unfold setCompact Uint256.setCompact
  dsimp only
  generalize nCompact.toNat &&& 0x007fffff = m at mantissa
  generalize nCompact.toNat >>> 24 = nSize
  by_cases short : nSize ≤ 3
  · have less : m >>> (8 * (3 - nSize)) < 2 ^ 32 :=
      lt_of_le_of_lt (Nat.shiftRight_le _ _) mantissa
    obtain ⟨length, bounded, value⟩ := words less
    simp only [if_pos short]
    refine ⟨⟨_, length, bounded⟩, rfl, ?_⟩
    rw [number, value, BitVec.toNat_ofNat, Nat.mod_eq_of_lt (by omega)]
  · obtain ⟨length, bounded, value⟩ := words mantissa
    obtain ⟨length', bounded', shifted⟩ := value_shiftLeft bounded (8 * (nSize - 3))
    simp only [if_neg short]
    refine ⟨⟨_, length'.trans length, bounded'⟩, rfl, ?_⟩
    rw [number, shifted, value, BITS, length, BitVec.toNat_shiftLeft, BitVec.toNat_ofNat,
      Nat.shiftLeft_eq, Nat.mod_eq_of_lt (by omega : m < 2 ^ 256)]

/-- **Division and compact form are exact.** -/
theorem arithmetic_exact :
    (∀ a b : Words256, 0 < b.number → ∃ q : Words256, divide a.pn b.pn = some q.pn ∧
      q.number = a.number / b.number) ∧
    (∀ a b : Words256, ∃ p : Words256, multiply a.pn b.pn = p.pn ∧
      p.number = a.number * b.number % 2 ^ 256) ∧
    (∀ x : Words256, ∃ nCompact : UInt32, getCompact x.pn = some nCompact.toNat ∧
      ∃ y : Words256, setCompact nCompact = (y.pn, false, false) ∧
        y.number = Uint256.leadingPart x.word ∧ y.number ≤ x.number) ∧
    (∀ nCompact, Uint256.Canonical nCompact →
      getCompact (setCompact nCompact).1 = some nCompact.toNat) ∧
    ∀ x y : Words256, x.number ≤ y.number →
      ∃ first second, getCompact x.pn = some first ∧ getCompact y.pn = some second ∧
        first ≤ second := by
  refine ⟨?_, ?_, ?_, ?_, ?_⟩
  · intro a b positive
    obtain ⟨quotient, divided, length, bounded, value⟩ :=
      value_divide a.bounded b.bounded (b.length.trans a.length.symm) positive
    exact ⟨⟨quotient, length.trans a.length, bounded⟩, divided, value⟩
  · intro a b
    obtain ⟨length, bounded, value⟩ :=
      value_multiply a.bounded b.bounded (b.length.trans a.length.symm)
    rw [BITS, a.length] at value
    exact ⟨⟨_, length.trans a.length, bounded⟩, rfl, value⟩
  · intro x
    have exact : (UInt32.ofNat (Uint256.getCompact x.word)).toNat = Uint256.getCompact x.word := by
      rw [UInt32.toNat_ofNat', Nat.mod_eq_of_lt (Uint256.getCompact_lt x.word)]
    obtain ⟨y, made, value⟩ := setCompact_spec (UInt32.ofNat (Uint256.getCompact x.word))
    obtain ⟨negative, overflow⟩ := Uint256.flags_setCompact_getCompact x.word
    rw [negative, overflow] at made
    rw [Uint256.target_setCompact_getCompact] at value
    have least := Uint256.leadingPart_le x.word
    rw [toNat_word] at least
    exact ⟨_, by rw [exact, getCompact_eq], y, made, value, by rw [value]; exact least⟩
  · intro nCompact canonical
    obtain ⟨y, made, value⟩ := setCompact_spec nCompact
    have same : y.word = (Uint256.setCompact nCompact).target :=
      BitVec.eq_of_toNat_eq (by rw [toNat_word, value])
    rw [made, getCompact_eq, same, Uint256.getCompact_setCompact canonical]
  · intro x y order
    refine ⟨_, _, getCompact_eq x, getCompact_eq y, Uint256.getCompact_mono ?_⟩
    rw [toNat_word, toNat_word]
    exact order

/-- The words of a small number. -/
def ofUInt32 (word : UInt32) : Words256 where
  pn := ofWord word.toNat
  length := rfl
  bounded := by
    intro other mem
    obtain rfl | later := List.mem_cons.mp mem
    · exact word.toNat_lt
    · exact Limbs.bounded_replicate_zero 7 other later

/-- Seven is divided by two, and compact forms of a size of 27 bytes and of small numbers. -/
theorem arithmetic_exact_seven :
    (∃ q : Words256, divide (ofUInt32 7).pn (ofUInt32 2).pn = some q.pn ∧
      q.number = (ofUInt32 7).number / (ofUInt32 2).number) ∧
    getCompact (setCompact 0x1b00ffff).1 = some (0x1b00ffff : UInt32).toNat ∧
    ∃ first second, getCompact (ofUInt32 2).pn = some first ∧
      getCompact (ofUInt32 7).pn = some second ∧ first ≤ second :=
  ⟨arithmetic_exact.1 (ofUInt32 7) (ofUInt32 2) (by decide),
    arithmetic_exact.2.2.2.1 0x1b00ffff ⟨by decide, .inr ⟨by decide, by decide⟩, by decide⟩,
    arithmetic_exact.2.2.2.2 (ofUInt32 2) (ofUInt32 7) (by decide)⟩

end Words256

end GiantCore
