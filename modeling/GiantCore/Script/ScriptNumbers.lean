import GiantCore.Script.Pushes
import Mathlib.Data.Nat.Bitwise
import Mathlib.Tactic.Ring

/-! # Numbers of a script

`CScriptNum::serialize` writes the bytes of the absolute value and puts the sign into the highest
bit of the last byte, or into a byte of its own where that bit is taken. Read with
`fRequireMinimal` no other string gives the number (`serializeNum_unique`).
-/

namespace GiantCore.CScript

/-! ## Bytes of a natural number -/

theorem littleEndian_append (init bytes : List UInt8) :
    littleEndian (init ++ bytes) =
      littleEndian init + 256 ^ init.length * littleEndian bytes := by
  induction init with
  | nil => simp [littleEndian]
  | cons byte init ih =>
      rw [List.cons_append, littleEndian_cons, littleEndian_cons, ih, List.length_cons,
        Nat.pow_succ]
      ring

theorem littleEndian_lowBytes (count : Nat) {value : Nat} (small : value < 256 ^ count) :
    littleEndian (lowBytes count value) = value := by
  induction count generalizing value with
  | zero =>
      rw [Nat.lt_one_iff.mp small]
      rfl
  | succ count ih =>
      rw [lowBytes]
      split
      · rename_i zero
        exact zero.symm
      · have higher : value / 256 < 256 ^ count := by
          rw [Nat.div_lt_iff_lt_mul (by decide), ← Nat.pow_succ]
          exact small
        rw [littleEndian_cons, ih higher, UInt8.toNat_ofNat', Nat.mod_mod]
        omega

theorem length_lowBytes_le (count value : Nat) : (lowBytes count value).length ≤ count := by
  induction count generalizing value with
  | zero => exact Nat.le_refl _
  | succ count ih =>
      rw [lowBytes]
      split
      · exact Nat.zero_le _
      · exact Nat.succ_le_succ (ih _)

/-- The highest byte of a number is not zero. -/
theorem getLast?_lowBytes (count : Nat) {value : Nat} (small : value < 256 ^ count) :
    (lowBytes count value).getLast? ≠ some 0 := by
  induction count generalizing value with
  | zero => simp [lowBytes]
  | succ count ih =>
      rw [lowBytes]
      split
      · simp
      · rename_i positive
        have higher : value / 256 < 256 ^ count := by
          rw [Nat.div_lt_iff_lt_mul (by decide), ← Nat.pow_succ]
          exact small
        intro last
        cases rest : lowBytes count (value / 256) with
        | cons byte bytes =>
            rw [rest, List.getLast?_cons_cons, ← rest] at last
            exact ih higher last
        | nil =>
            have top : value / 256 = 0 := by
              have total := littleEndian_lowBytes count higher
              rw [rest] at total
              exact total.symm
            rw [rest, List.getLast?_singleton, Option.some_inj] at last
            have zero := congrArg UInt8.toNat last
            rw [UInt8.toNat_ofNat', Nat.mod_mod] at zero
            change value % 256 = 0 at zero
            omega

/-- Bytes with a highest byte that is not zero are the bytes of their number. -/
theorem lowBytes_littleEndian {count : Nat} {bytes : List UInt8} (short : bytes.length ≤ count)
    (last : bytes.getLast? ≠ some 0) : lowBytes count (littleEndian bytes) = bytes := by
  induction bytes generalizing count with
  | nil => cases count <;> simp [lowBytes, littleEndian]
  | cons byte bytes ih =>
      obtain ⟨room, rfl⟩ : ∃ room, count = room + 1 :=
        ⟨count - 1, by rw [List.length_cons] at short; omega⟩
      have small := byte.toNat_lt
      have rest : lowBytes room (littleEndian bytes) = bytes := by
        refine ih (by simpa using short) ?_
        cases bytes with
        | nil => simp
        | cons next bytes => rwa [List.getLast?_cons_cons] at last
      have positive : littleEndian (byte :: bytes) ≠ 0 := by
        intro zero
        rw [littleEndian_cons] at zero
        have low : byte.toNat = 0 := by omega
        have none : littleEndian bytes = 0 := by omega
        rw [none] at rest
        have nothing : bytes = [] := by
          rw [← rest]
          cases room <;> simp [lowBytes]
        subst nothing
        have none : byte = 0 := UInt8.toNat_inj.mp low
        exact last (by rw [none, List.getLast?_singleton])
      rw [lowBytes, if_neg positive, littleEndian_cons, Nat.add_mul_div_left _ _ (by decide),
        Nat.add_mul_mod_self_left, Nat.div_eq_of_lt small, Nat.zero_add, rest,
        Nat.mod_eq_of_lt small, UInt8.ofNat_toNat]

/-! ## The sign bit -/

theorem signBit_iff (top : UInt8) : (top &&& 0x80 != 0) = true ↔ 128 ≤ top.toNat := by
  have value : (top &&& 0x80).toNat = (top.toNat.testBit 7).toNat * 2 ^ 7 := by
    rw [UInt8.toNat_and]
    exact Nat.and_two_pow top.toNat 7
  have small := top.toNat_lt
  rw [bne_iff_ne, ne_eq, ← UInt8.toNat_inj, value, Nat.testBit_eq_decide_div_mod_eq]
  by_cases large : 128 ≤ top.toNat
  · rw [decide_eq_true (by omega : top.toNat / 2 ^ 7 % 2 = 1)]
    exact iff_of_true (by decide) large
  · rw [decide_eq_false (by omega : ¬ top.toNat / 2 ^ 7 % 2 = 1)]
    exact iff_of_false (fun differ => differ (by decide)) large

theorem lowBits_iff (top : UInt8) : (top &&& 0x7f != 0) = true ↔ top.toNat % 128 ≠ 0 := by
  have value : (top &&& 0x7f).toNat = top.toNat % 2 ^ 7 := by
    rw [UInt8.toNat_and]
    exact Nat.and_two_pow_sub_one_eq_mod top.toNat 7
  rw [bne_iff_ne, ne_eq, ← UInt8.toNat_inj, value]
  rfl

theorem toNat_or_sign {top : UInt8} (small : top.toNat < 128) :
    (top ||| 0x80).toNat = top.toNat + 128 := by
  rw [UInt8.toNat_or]
  have sum : 2 ^ 7 * 1 + top.toNat = 2 ^ 7 * 1 ||| top.toNat :=
    Nat.two_pow_add_eq_or_of_lt small 1
  rw [Nat.lor_comm, Nat.add_comm]
  exact sum.symm

/-! ## Sign and magnitude -/

/-- A number whose last byte is split off. -/
theorem scriptNumOfBytes_concat (init : List UInt8) (top : UInt8) :
    scriptNumOfBytes (init ++ [top]) =
      if 128 ≤ top.toNat then -(littleEndian init + 256 ^ init.length * (top.toNat - 128) : Int)
      else littleEndian init + 256 ^ init.length * top.toNat := by
  have last : (init ++ [top]).getLast? = some top := by simp
  have value :
      littleEndian (init ++ [top]) = littleEndian init + 256 ^ init.length * top.toNat := by
    rw [littleEndian_append]
    rfl
  have before : (init ++ [top]).length - 1 = init.length := by simp
  unfold scriptNumOfBytes
  rw [last, value, before]
  dsimp only
  by_cases negative : 128 ≤ top.toNat
  · rw [if_pos ((signBit_iff top).mpr negative), if_pos negative]
    push_cast
    ring
  · rw [if_neg (mt (signBit_iff top).mp negative), if_neg negative]
    push_cast
    ring

theorem isMinimalNum_concat (init : List UInt8) (top : UInt8) :
    isMinimalNum (init ++ [top]) = true ↔
      top.toNat % 128 ≠ 0 ∨ ∃ next, init.getLast? = some next ∧ 128 ≤ next.toNat := by
  unfold isMinimalNum
  rw [List.reverse_append, List.reverse_singleton, List.singleton_append]
  cases reversed : init.reverse with
  | nil =>
      have empty := List.reverse_eq_nil_iff.mp reversed
      subst empty
      simp only [List.getLast?_nil, reduceCtorEq, false_and, exists_false, or_false]
      exact lowBits_iff top
  | cons next others =>
      have last : init.getLast? = some next := by
        rw [← List.head?_reverse, reversed, List.head?_cons]
      rw [Bool.or_eq_true, lowBits_iff, signBit_iff, last]
      simp only [Option.some.injEq, exists_eq_left']

/-- The encoding of a number whose bytes are known. -/
theorem serializeNum_of_bytes {n : Int} {init : List UInt8} {top : UInt8}
    (bytes : lowBytes 8 n.natAbs = init ++ [top]) :
    serializeNum n = if 128 ≤ top.toNat then init ++ [top] ++ [if n < 0 then 0x80 else 0]
      else if n < 0 then init ++ [top ||| 0x80] else init ++ [top] := by
  have last : (init ++ [top]).getLast? = some top := by simp
  unfold serializeNum
  rw [bytes]
  dsimp only
  rw [last]
  dsimp only
  by_cases taken : 128 ≤ top.toNat
  · rw [if_pos ((signBit_iff top).mpr taken), if_pos taken]
  · rw [if_neg (mt (signBit_iff top).mp taken), if_neg taken, List.dropLast_concat]

/-- A number that is not zero has a highest byte. -/
theorem exists_top {n : Int} (nonzero : n ≠ 0) (small : n.natAbs < 2 ^ 64) :
    ∃ init top, lowBytes 8 n.natAbs = init ++ [top] ∧ top ≠ 0 ∧
      littleEndian (init ++ [top]) = n.natAbs := by
  have bounded : n.natAbs < 256 ^ 8 := small
  have value := littleEndian_lowBytes 8 bounded
  obtain none | ⟨init, top, bytes⟩ := List.eq_nil_or_concat (lowBytes 8 n.natAbs)
  · rw [none] at value
    exact absurd (Int.natAbs_eq_zero.mp value.symm) nonzero
  · rw [List.concat_eq_append] at bytes
    refine ⟨init, top, bytes, ?_, by rw [← bytes, value]⟩
    rintro rfl
    exact getLast?_lowBytes 8 bounded (by rw [bytes]; simp)

/-- The encoding gives the number back, and is minimal. -/
theorem scriptNumOfBytes_serializeNum {n : Int} (small : n.natAbs < 2 ^ 64) :
    scriptNumOfBytes (serializeNum n) = n ∧ isMinimalNum (serializeNum n) = true := by
  by_cases zero : n = 0
  · subst zero
    decide
  obtain ⟨init, top, bytes, nonzero, value⟩ := exists_top zero small
  have positive : top.toNat ≠ 0 := fun none => nonzero (UInt8.toNat_inj.mp none)
  have total : littleEndian init + 256 ^ init.length * top.toNat = n.natAbs := by
    rw [← value, littleEndian_append]
    rfl
  have cast : (littleEndian init + 256 ^ init.length * top.toNat : Int) = n.natAbs := by
    exact_mod_cast total
  rw [serializeNum_of_bytes bytes]
  by_cases taken : 128 ≤ top.toNat
  · have sign : (if n < 0 then (0x80 : UInt8) else 0).toNat = if n < 0 then 128 else 0 := by
      split <;> rfl
    rw [if_pos taken, scriptNumOfBytes_concat, isMinimalNum_concat, value, sign]
    refine ⟨?_, .inr ⟨top, by simp, taken⟩⟩
    by_cases negative : n < 0
    · rw [if_pos negative, if_pos (Nat.le_refl _), show ((128 : Nat) : Int) - 128 = 0 from rfl,
        Int.mul_zero, Int.add_zero]
      omega
    · rw [if_neg negative, if_neg (by decide), Int.natCast_zero, Int.mul_zero, Int.add_zero]
      omega
  · rw [if_neg taken]
    by_cases negative : n < 0
    · have sign := toNat_or_sign (Nat.not_le.mp taken)
      rw [if_pos negative, scriptNumOfBytes_concat, isMinimalNum_concat, sign, if_pos (by omega)]
      refine ⟨?_, .inl (by omega)⟩
      push_cast
      rw [Int.add_sub_cancel, cast]
      omega
    · rw [if_neg negative, scriptNumOfBytes_concat, isMinimalNum_concat, if_neg taken, cast]
      exact ⟨by omega, .inl (by omega)⟩

theorem length_serializeNum_le {n : Int} (small : n.natAbs < 2 ^ 63) :
    (serializeNum n).length ≤ 8 := by
  by_cases zero : n = 0
  · subst zero
    decide
  obtain ⟨init, top, bytes, nonzero, value⟩ := exists_top zero (by omega)
  have most : (init ++ [top]).length ≤ 8 := bytes ▸ length_lowBytes_le 8 n.natAbs
  rw [List.length_append, List.length_singleton] at most
  rw [serializeNum_of_bytes bytes]
  by_cases taken : 128 ≤ top.toNat
  · have room : init.length ≠ 7 := by
      intro full
      have total : littleEndian init + 256 ^ init.length * top.toNat = n.natAbs := by
        rw [← value, littleEndian_append]
        rfl
      rw [full] at total
      omega
    rw [if_pos taken]
    simp only [List.length_append, List.length_singleton]
    omega
  · rw [if_neg taken]
    split <;> simp only [List.length_append, List.length_singleton] <;> omega

/-- Sign and absolute value of a string that is minimal. -/
theorem natAbs_scriptNumOfBytes {init : List UInt8} {top : UInt8}
    (minimal : isMinimalNum (init ++ [top]) = true) :
    (scriptNumOfBytes (init ++ [top])).natAbs =
        littleEndian init + 256 ^ init.length * (top.toNat % 128) ∧
      (scriptNumOfBytes (init ++ [top]) < 0 ↔ 128 ≤ top.toNat) := by
  have small := top.toNat_lt
  have power : 0 < 256 ^ init.length := Nat.pow_pos (by decide)
  have positive : 0 < littleEndian init + 256 ^ init.length * (top.toNat % 128) := by
    obtain high | ⟨next, last, large⟩ := (isMinimalNum_concat init top).mp minimal
    · have product := Nat.mul_pos power (Nat.pos_of_ne_zero high)
      omega
    · obtain rfl | ⟨before, other, rfl⟩ := List.eq_nil_or_concat init
      · cases last
      · rw [List.concat_eq_append] at last ⊢
        obtain rfl : other = next := by simpa using last
        rw [littleEndian_append]
        have product : 0 < 256 ^ before.length * littleEndian [other] :=
          Nat.mul_pos (Nat.pow_pos (by decide)) (by change 0 < other.toNat + 0; omega)
        omega
  have cast : (littleEndian init + 256 ^ init.length * ((top.toNat % 128 : Nat) : Int) : Int) =
      (littleEndian init + 256 ^ init.length * (top.toNat % 128) : Nat) := by
    rw [Nat.cast_add, Nat.cast_mul, Nat.cast_pow]
    rfl
  rw [scriptNumOfBytes_concat]
  by_cases negative : 128 ≤ top.toNat
  · have low : (top.toNat - 128 : Int) = ((top.toNat % 128 : Nat) : Int) := by omega
    rw [if_pos negative, low, cast, Int.natAbs_neg, Int.natAbs_natCast]
    exact ⟨rfl, iff_of_true (by omega) negative⟩
  · have low : (top.toNat : Int) = ((top.toNat % 128 : Nat) : Int) := by omega
    rw [if_neg negative, low, cast, Int.natAbs_natCast]
    exact ⟨rfl, iff_of_false (by omega) negative⟩

/-- A minimal string of at most eight bytes is the encoding of its number. -/
theorem eq_serializeNum {vch : Valtype} (short : vch.length ≤ 8)
    (minimal : isMinimalNum vch = true) : vch = serializeNum (scriptNumOfBytes vch) := by
  obtain rfl | ⟨init, top, rfl⟩ := List.eq_nil_or_concat vch
  · decide
  rw [List.concat_eq_append] at *
  obtain ⟨magnitude, sign⟩ := natAbs_scriptNumOfBytes minimal
  rw [List.length_append, List.length_singleton] at short
  have small := top.toNat_lt
  by_cases high : top.toNat % 128 = 0
  -- The sign has a byte of its own.
  · obtain wrong | ⟨next, last, large⟩ := (isMinimalNum_concat init top).mp minimal
    · exact absurd high wrong
    obtain rfl | ⟨before, other, rfl⟩ := List.eq_nil_or_concat init
    · cases last
    rw [List.concat_eq_append] at *
    obtain rfl : other = next := by simpa using last
    have bytes : lowBytes 8 (scriptNumOfBytes (before ++ [other] ++ [top])).natAbs =
        before ++ [other] := by
      rw [magnitude, high, Nat.mul_zero, Nat.add_zero]
      refine lowBytes_littleEndian (by omega) ?_
      rw [last, Ne, Option.some_inj]
      rintro rfl
      exact absurd large (by decide)
    rw [serializeNum_of_bytes bytes, if_pos large]
    congr 2
    apply UInt8.toNat_inj.mp
    by_cases negative : 128 ≤ top.toNat
    · rw [if_pos (sign.mpr negative)]
      change top.toNat = 128
      omega
    · rw [if_neg (mt sign.mp negative)]
      change top.toNat = 0
      omega
  -- The sign is in the highest byte of the number.
  · have low : (UInt8.ofNat (top.toNat % 128)).toNat = top.toNat % 128 := by
      rw [UInt8.toNat_ofNat']
      omega
    have bytes : lowBytes 8 (scriptNumOfBytes (init ++ [top])).natAbs =
        init ++ [UInt8.ofNat (top.toNat % 128)] := by
      have value : littleEndian (init ++ [UInt8.ofNat (top.toNat % 128)]) =
          (scriptNumOfBytes (init ++ [top])).natAbs := by
        rw [magnitude, littleEndian_append]
        change _ + _ * ((UInt8.ofNat (top.toNat % 128)).toNat + 256 * 0) = _
        rw [low, Nat.mul_zero, Nat.add_zero]
      rw [← value]
      refine lowBytes_littleEndian (by simpa using short) ?_
      rw [List.getLast?_concat, Ne, Option.some_inj, ← UInt8.toNat_inj, low]
      exact high
    rw [serializeNum_of_bytes bytes, if_neg (by omega)]
    by_cases negative : 128 ≤ top.toNat
    · rw [if_pos (sign.mpr negative)]
      congr 2
      apply UInt8.toNat_inj.mp
      rw [toNat_or_sign (by omega)]
      omega
    · rw [if_neg (mt sign.mp negative)]
      congr 2
      apply UInt8.toNat_inj.mp
      omega

/-! ## The constructor -/

/-- The constructor of `CScriptNum` from a string: nothing where it throws, and where `set_vch`
would shift a byte by 64 bits or more. -/
def readNum (vch : Valtype) (fRequireMinimal : Bool) (nMaxNumSize : Nat) : Option Int :=
  if vch.length ≤ 8 then scriptNum vch fRequireMinimal nMaxNumSize else none

theorem readNum_eq_some_iff {vch : Valtype} {fRequireMinimal : Bool} {nMaxNumSize : Nat}
    {n : Int} : readNum vch fRequireMinimal nMaxNumSize = some n ↔
      vch.length ≤ 8 ∧ vch.length ≤ nMaxNumSize ∧
        (fRequireMinimal = true → isMinimalNum vch = true) ∧ scriptNumOfBytes vch = n := by
  unfold readNum scriptNum
  by_cases short : vch.length ≤ 8
  · by_cases fits : vch.length ≤ nMaxNumSize
    · cases fRequireMinimal <;> cases minimal : isMinimalNum vch <;> simp [short, fits]
    · simp [short, fits]
  · simp [short]

/-- The encoding of a number is read as that number under every limit that it fits, and with
`fRequireMinimal` nothing else is. -/
theorem readNum_serializeNum {n : Int} (small : n.natAbs < 2 ^ 63) :
    (∀ fRequireMinimal nMaxNumSize, (serializeNum n).length ≤ nMaxNumSize →
      readNum (serializeNum n) fRequireMinimal nMaxNumSize = some n) ∧
    ∀ vch nMaxNumSize, readNum vch true nMaxNumSize = some n → vch = serializeNum n := by
  obtain ⟨value, minimal⟩ := @scriptNumOfBytes_serializeNum n (by omega)
  refine ⟨?_, ?_⟩
  · intro fRequireMinimal nMaxNumSize fits
    exact readNum_eq_some_iff.mpr ⟨length_serializeNum_le small, fits, fun _ => minimal, value⟩
  · intro vch nMaxNumSize read
    obtain ⟨short, -, accepted, rfl⟩ := readNum_eq_some_iff.mp read
    exact eq_serializeNum short (accepted rfl)

/-! ## Numbers and pushes -/

/-- Numbers and pushes are read back as they were written, in scripts that 32 bits count. -/
theorem numbers_and_pushes_round_trip :
    (∀ n : Int, n.natAbs < 2 ^ 63 →
      (∀ fRequireMinimal nMaxNumSize, (serializeNum n).length ≤ nMaxNumSize →
        readNum (serializeNum n) fRequireMinimal nMaxNumSize = some n) ∧
      ∀ vch nMaxNumSize, readNum vch true nMaxNumSize = some n → vch = serializeNum n) ∧
    ∀ items : List Item, (∀ item ∈ items, item.Plain) →
      (items.foldl append []).length < 2 ^ 32 →
      (operations (items.foldl append [])).1.map itemOf = items ∧
        (operations (items.foldl append [])).2 = [] := by
  refine ⟨fun n small => readNum_serializeNum small, ?_⟩
  intro items plain short
  rw [foldl_append_eq, List.nil_append] at short ⊢
  exact operations_append plain short

/-- The number 255, and an opcode with data. -/
theorem numbers_and_pushes_of_255 :
    readNum (serializeNum 255) true 4 = some 255 ∧
      (operations ([.op 0xac, .data [7, 8]].foldl append [])).1.map itemOf =
        [.op 0xac, .data [7, 8]] :=
  ⟨(numbers_and_pushes_round_trip.1 255 (by decide)).1 true 4 (by decide),
    (numbers_and_pushes_round_trip.2 [.op 0xac, .data [7, 8]] (by
      intro item mem
      simp only [List.mem_cons, List.not_mem_nil, or_false] at mem
      obtain rfl | rfl := mem
      · exact (by decide : Opcode.opPushData4 < 0xac)
      · trivial) (by decide)).1⟩

/-- Data of 2^32 bytes are written with the size zero. -/
theorem pushBytes_of_wrapped {b : Valtype} (size : b.length = 2 ^ 32) :
    pushBytes b = Opcode.opPushData4 :: ([0, 0, 0, 0] ++ b) := by
  have direct : ¬ b.length < Opcode.opPushData1.toNat := by
    change ¬ b.length < 76
    omega
  unfold pushBytes
  simp only [if_neg direct, if_neg (by omega : ¬ b.length ≤ 0xff),
    if_neg (by omega : ¬ b.length ≤ 0xffff)]
  rw [size]
  rfl

theorem operations_of_wrapped {b : Valtype} (size : b.length = 2 ^ 32) :
    (operations (List.foldl append [] [.data b])).1.map itemOf ≠ [.data b] := by
  have more : b ≠ [] := by
    rintro rfl
    cases size
  have read : getOp2 (pushBytes b) = ⟨true, Opcode.opPushData4, [], b⟩ := by
    have sized : pushSize Opcode.opPushData4 ([0, 0, 0, 0] ++ b) = some (0, b) := by
      have enough : ¬ ([0, 0, 0, 0] ++ b).length < sizeWidth Opcode.opPushData4 := by
        rw [List.length_append]
        change ¬ 4 + b.length < 4
        omega
      rw [pushSize, if_neg enough]
      rfl
    rw [pushBytes_of_wrapped size, getOp2, if_pos (UInt8.le_refl _)]
    simp only [sized, Nat.not_lt_zero, if_false, List.take_zero, List.drop_zero]
  rw [List.foldl_cons, List.foldl_nil, append, List.nil_append, operations_of_getOp2 read]
  intro same
  rw [List.map_cons, itemOf, if_pos (UInt8.le_refl _)] at same
  injection same with first rest
  injection first with none
  exact more none.symm

/-- Data of 2^32 bytes are not read back. -/
theorem wrapped_push_is_lost :
    ¬ ∀ items : List Item, (∀ item ∈ items, item.Plain) →
      (operations (items.foldl append [])).1.map itemOf = items := by
  intro exact
  exact @operations_of_wrapped (List.replicate (2 ^ 32) 0) List.length_replicate
    (exact [.data (List.replicate (2 ^ 32) 0)] (by
      intro item mem
      rw [List.mem_singleton.mp mem]
      trivial))

end GiantCore.CScript
