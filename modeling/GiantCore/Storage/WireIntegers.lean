import GiantCore.Foundation.VarInt
import GiantCore.Script.ScriptNumbers
import GiantCore.Zerocoin.SpendScript
import Mathlib.Data.List.Induction

/-! # Integers of the wire format

`WriteVarInt` collects digits in a buffer whose size is estimated from the width of the type, and
`WriteCompactSize` chooses one of four forms; `ReadCompactSize` takes only the form that is
written (`readCompactSize_iff`). A string of digits with an end stands for one number, and no other
string for the same (`denote_inj`).
-/

namespace GiantCore

open GiantCore.Foundation CScript

/-! ## Variable length -/

/-- `GetSizeOfVarInt`. -/
def getSizeOfVarInt (n : Nat) : Nat :=
  if n ≤ 0x7f then 1 else getSizeOfVarInt (n / 128 - 1) + 1
termination_by n

/-- The size of the buffer of `WriteVarInt` for a type of some width. -/
def varIntRoom (width : Nat) : Nat := (width + 6) / 7

/-- A byte of `WriteVarInt`, behind those in the buffer. -/
def varIntByte (tmp : List UInt8) (n : Nat) : UInt8 :=
  UInt8.ofNat (n % 128 + if tmp.length = 0 then 0 else 128)

/-- The loop of `WriteVarInt` that fills the buffer, or nothing if it writes behind its end. -/
def fillVarInt (room : Nat) (tmp : List UInt8) (n : Nat) : Option (List UInt8) :=
  if tmp.length < room then
    if n ≤ 0x7f then some (tmp ++ [varIntByte tmp n])
    else fillVarInt room (tmp ++ [varIntByte tmp n]) (n / 128 - 1)
  else none
termination_by n

/-- `WriteVarInt` of an unsigned type of some width. -/
def writeVarInt (width n : Nat) : Option (List UInt8) :=
  (fillVarInt (varIntRoom width) [] n).map List.reverse

/-- `ReadVarInt` of an unsigned type of some width. -/
def readVarInt (width : Nat) (bytes : List UInt8) : Option (Nat × List UInt8) :=
  VarInt.read width 0 bytes

theorem digit_eq (tmp : List UInt8) (n : Nat) :
    VarInt.digit (decide (tmp.length ≠ 0)) n = varIntByte tmp n := by
  have low : ((n : Int) % 128).toNat = n % 128 := by omega
  rw [VarInt.digit, low, varIntByte]
  by_cases first : tmp.length = 0 <;> simp [first]

/-- The buffer holds the digits from the lowest up, and is not overrun. -/
theorem fillVarInt_eq {room left n : Nat} {tmp : List UInt8}
    (space : tmp.length + (left + 1) = room) (small : n < 128 ^ (left + 1)) :
    ∃ after, fillVarInt room tmp n = some after ∧
      after.reverse = VarInt.write (left + 1) (decide (tmp.length ≠ 0)) n tmp.reverse ∧
      after.length = tmp.length + getSizeOfVarInt n := by
  induction left generalizing n tmp with
  | zero =>
      have least : n ≤ 0x7f := by omega
      refine ⟨tmp ++ [varIntByte tmp n], ?_, ?_, ?_⟩
      · rw [fillVarInt, if_pos (by omega : tmp.length < room), if_pos least]
      · rw [VarInt.write, if_pos (by omega : (n : Int) ≤ 127), digit_eq, List.reverse_append]
        rfl
      · rw [getSizeOfVarInt, if_pos least, List.length_append, List.length_singleton]
  | succ left ih =>
      rw [fillVarInt, if_pos (by omega : tmp.length < room), getSizeOfVarInt, VarInt.write,
        digit_eq]
      by_cases last : n ≤ 0x7f
      · refine ⟨tmp ++ [varIntByte tmp n], if_pos last, ?_, ?_⟩
        · rw [if_pos (by omega : (n : Int) ≤ 127), List.reverse_append]
          rfl
        · rw [if_pos last, List.length_append, List.length_singleton]
      · have carried : (n : Int) / 128 - 1 = (n / 128 - 1 : Nat) := by omega
        have less : n / 128 < 128 ^ (left + 1) :=
          Nat.div_lt_of_lt_mul (by rwa [Nat.pow_succ, Nat.mul_comm] at small)
        rw [if_neg last, if_neg (by omega : ¬ (n : Int) ≤ 127), if_neg last, carried]
        obtain ⟨after, filled, written, length⟩ :=
          @ih (n / 128 - 1) (tmp ++ [varIntByte tmp n])
            (by rw [List.length_append, List.length_singleton]; omega) (by omega)
        rw [List.length_append, List.length_singleton] at written length
        refine ⟨after, filled, ?_, by omega⟩
        rw [written, List.reverse_append, decide_eq_true (Nat.succ_ne_zero _)]
        rfl

theorem size_le (room : Nat) (value : Int) : VarInt.size room value ≤ room := by
  induction room generalizing value with
  | zero => exact Nat.le_refl _
  | succ room ih =>
      rw [VarInt.size]
      split
      · omega
      · exact Nat.succ_le_succ (ih _)

/-- The buffer of a type has room for all its numbers. -/
theorem pow_le_room {width : Nat} (positive : 0 < width) :
    ∃ left, varIntRoom width = left + 1 ∧ 2 ^ width ≤ 128 ^ (left + 1) := by
  refine ⟨varIntRoom width - 1, by unfold varIntRoom; omega, ?_⟩
  have room : varIntRoom width - 1 + 1 = varIntRoom width := by
    unfold varIntRoom
    omega
  rw [room, show 128 = 2 ^ 7 from rfl, ← Nat.pow_mul]
  refine Nat.pow_le_pow_right (by decide) ?_
  unfold varIntRoom
  omega

/-- Every number of an unsigned type is written in its size, within the buffer, and read back. -/
theorem readVarInt_writeVarInt {width n : Nat} (positive : 0 < width) (fits : n < 2 ^ width) :
    ∃ bytes, writeVarInt width n = some bytes ∧ bytes.length = getSizeOfVarInt n ∧
      bytes.length ≤ varIntRoom width ∧
      ∀ rest, readVarInt width (bytes ++ rest) = some (n, rest) := by
  obtain ⟨left, room, holds⟩ := pow_le_room positive
  obtain ⟨after, filled, written, length⟩ :=
    @fillVarInt_eq (varIntRoom width) left n [] (by rw [room]; simp) (lt_of_lt_of_le fits holds)
  have size : after.reverse.length = getSizeOfVarInt n := by
    rw [List.length_reverse, length, List.length_nil, Nat.zero_add]
  refine ⟨after.reverse, by rw [writeVarInt, filled, Option.map_some], size, ?_, ?_⟩
  · rw [written, VarInt.length_write, List.reverse_nil, List.length_nil, room]
    exact size_le (left + 1) n
  · intro rest
    rw [written, VarInt.write_append]
    exact VarInt.read_write_eq holds fits rest

/-! ## Strings of digits -/

/-- The number that a complete string of digits stands for, from a number so far: nothing if the
string ends within a number, or goes on behind it. -/
def denote (value : Nat) : List UInt8 → Option Nat
  | [] => none
  | byte :: rest =>
      if byte.toNat ≥ 128 then denote (value * 128 + byte.toNat % 128 + 1) rest
      else if rest = [] then some (value * 128 + byte.toNat % 128) else none

/-- What is read is the number, reduced to the width. -/
theorem read_of_denote {width value n : Nat} {bytes : List UInt8}
    (complete : denote value bytes = some n) :
    VarInt.read width (value % 2 ^ width) bytes = some (n % 2 ^ width, []) := by
  induction bytes generalizing value with
  | nil => cases complete
  | cons byte rest ih =>
      have next : (value % 2 ^ width * 128 + byte.toNat % 128) % 2 ^ width =
          (value * 128 + byte.toNat % 128) % 2 ^ width := by
        rw [Nat.add_mod, Nat.mod_mul_mod, ← Nat.add_mod]
      rw [denote] at complete
      unfold VarInt.read
      rw [next]
      split at complete
      · rename_i more
        rw [if_pos more, Nat.mod_add_mod]
        exact ih complete
      · rename_i last
        rw [if_neg last]
        split at complete
        · rename_i ended
          cases complete
          rw [ended]
        · cases complete

/-- The number behind digits that all go on. -/
def carriedOf (bytes : List UInt8) : Nat :=
  bytes.foldl (fun value byte => value * 128 + byte.toNat % 128 + 1) 0

/-- A complete string is digits that go on, and a last one that does not. -/
theorem denote_eq_some {value n : Nat} {bytes : List UInt8}
    (complete : denote value bytes = some n) :
    ∃ init last, bytes = init ++ [last] ∧ (∀ byte ∈ init, 128 ≤ byte.toNat) ∧ last.toNat < 128 ∧
      n = init.foldl (fun value byte => value * 128 + byte.toNat % 128 + 1) value * 128 +
        last.toNat := by
  induction bytes generalizing value with
  | nil => cases complete
  | cons byte rest ih =>
      rw [denote] at complete
      split at complete
      · rename_i more
        obtain ⟨init, last, split, goOn, ends, number⟩ := ih complete
        refine ⟨byte :: init, last, by rw [split, List.cons_append], ?_, ends, number⟩
        intro other mem
        obtain rfl | later := List.mem_cons.mp mem
        · exact more
        · exact goOn other later
      · rename_i last
        split at complete
        · rename_i ended
          cases complete
          exact ⟨[], byte, by rw [ended]; rfl, by simp, by omega, by
            rw [List.foldl_nil, Nat.mod_eq_of_lt (by omega)]⟩
        · cases complete

/-- Digits that go on are determined by their number. -/
theorem carriedOf_inj {first second : List UInt8} (goOn : ∀ byte ∈ first, 128 ≤ byte.toNat)
    (also : ∀ byte ∈ second, 128 ≤ byte.toNat) (same : carriedOf first = carriedOf second) :
    first = second := by
  have snoc (init : List UInt8) (last : UInt8) :
      carriedOf (init ++ [last]) = carriedOf init * 128 + last.toNat % 128 + 1 := by
    rw [carriedOf, List.foldl_append]
    rfl
  induction first using List.reverseRecOn generalizing second with
  | nil =>
      obtain rfl | ⟨init, last, rfl⟩ := List.eq_nil_or_concat second
      · rfl
      · rw [List.concat_eq_append, snoc] at same
        cases same
  | append_singleton init last ih =>
      obtain rfl | ⟨other, end', rfl⟩ := List.eq_nil_or_concat second
      · rw [snoc] at same
        cases same
      · rw [List.concat_eq_append] at *
        rw [snoc, snoc] at same
        have large := goOn last (by simp)
        have also' := also end' (by simp)
        have bound := last.toNat_lt
        have bound' := end'.toNat_lt
        have equal : last = end' := UInt8.toNat_inj.mp (by omega)
        rw [equal, ih (fun byte mem => goOn byte (List.mem_append_left _ mem))
          (fun byte mem => also byte (List.mem_append_left _ mem)) (by omega)]

/-- **No two strings stand for one number.** -/
theorem denote_inj {first second : List UInt8} {n : Nat} (complete : denote 0 first = some n)
    (also : denote 0 second = some n) : first = second := by
  obtain ⟨init, last, rfl, goOn, ends, number⟩ := denote_eq_some complete
  obtain ⟨other, last', rfl, goOn', ends', number'⟩ := denote_eq_some also
  have equal : last = last' := UInt8.toNat_inj.mp (by omega)
  rw [equal, carriedOf_inj goOn goOn' (by unfold carriedOf; omega)]

/-! ## Compact sizes -/

/-- `MAX_SIZE`. -/
def maxSize : Nat := 0x02000000

/-- An unsigned integer of a fixed number of bytes, if they are there. -/
def readFixed (count : Nat) (bytes : List UInt8) : Option (Nat × List UInt8) :=
  if bytes.length < count then none
  else some (littleEndian (bytes.take count), bytes.drop count)

/-- The form that the first byte announces, with nothing where a shorter one would do. -/
def readForm (chSize : UInt8) (bytes : List UInt8) : Option (Nat × List UInt8) :=
  if chSize < 253 then some (chSize.toNat, bytes)
  else if chSize = 253 then (readFixed 2 bytes).filter fun read => !decide (read.1 < 253)
  else if chSize = 254 then (readFixed 4 bytes).filter fun read => !decide (read.1 < 0x10000)
  else (readFixed 8 bytes).filter fun read => !decide (read.1 < 0x100000000)

/-- `ReadCompactSize`, with nothing where it throws. -/
def readCompactSize : List UInt8 → Option (Nat × List UInt8)
  | [] => none
  | chSize :: bytes =>
      match readForm chSize bytes with
      | none => none
      | some (nSizeRet, rest) => if nSizeRet > maxSize then none else some (nSizeRet, rest)

theorem fixedBytes_littleEndian (bytes : List UInt8) :
    fixedBytes bytes.length (littleEndian bytes) = bytes := by
  induction bytes with
  | nil => rfl
  | cons byte bytes ih =>
      have small := byte.toNat_lt
      rw [List.length_cons, fixedBytes, littleEndian_cons, Nat.add_mul_mod_self_left,
        Nat.add_mul_div_left _ _ (by decide), Nat.div_eq_of_lt small, Nat.zero_add, ih,
        Nat.mod_eq_of_lt small, UInt8.ofNat_toNat]

theorem littleEndian_fixedBytes {count value : Nat} (small : value < 256 ^ count) :
    littleEndian (fixedBytes count value) = value := by
  induction count generalizing value with
  | zero =>
      rw [Nat.lt_one_iff.mp small]
      rfl
  | succ count ih =>
      have higher : value / 256 < 256 ^ count := by
        rw [Nat.div_lt_iff_lt_mul (by decide), ← Nat.pow_succ]
        exact small
      rw [fixedBytes, littleEndian_cons, ih higher, UInt8.toNat_ofNat', Nat.mod_mod]
      omega

theorem littleEndian_lt (bytes : List UInt8) : littleEndian bytes < 256 ^ bytes.length := by
  induction bytes with
  | nil => decide
  | cons byte bytes ih =>
      have small := byte.toNat_lt
      rw [littleEndian_cons, List.length_cons, Nat.pow_succ]
      omega

/-- A fixed number of bytes is read if and only if those of the number are in front. -/
theorem readFixed_iff {count n : Nat} {bytes rest : List UInt8} :
    readFixed count bytes = some (n, rest) ↔
      n < 256 ^ count ∧ bytes = fixedBytes count n ++ rest := by
  unfold readFixed
  constructor
  · intro read
    split at read
    · cases read
    · rename_i long
      cases read
      have taken : (bytes.take count).length = count := by
        rw [List.length_take]
        omega
      have back := fixedBytes_littleEndian (bytes.take count)
      have bound := littleEndian_lt (bytes.take count)
      rw [taken] at back bound
      exact ⟨bound, by rw [back, List.take_append_drop]⟩
  · rintro ⟨small, rfl⟩
    have length := length_fixedBytes count n
    rw [if_neg (by rw [List.length_append]; omega), List.take_left' length,
      List.drop_left' length, littleEndian_fixedBytes small]

theorem filter_readFixed_iff {count least n : Nat} {bytes rest : List UInt8} :
    ((readFixed count bytes).filter fun read => !decide (read.1 < least)) = some (n, rest) ↔
      least ≤ n ∧ n < 256 ^ count ∧ bytes = fixedBytes count n ++ rest := by
  rw [Option.filter_eq_some_iff, readFixed_iff]
  simp only [Bool.not_eq_true', decide_eq_false_iff_not, Nat.not_lt]
  exact and_comm

/-- A form is read if and only if it is the one written. -/
theorem readForm_iff {chSize : UInt8} {bytes rest : List UInt8} {n : Nat} :
    readForm chSize bytes = some (n, rest) ↔
      n < 2 ^ 64 ∧ chSize :: bytes = writeCompactSize n ++ rest := by
  have bound := chSize.toNat_lt
  unfold readForm
  constructor
  · intro read
    split at read
    · rename_i small
      rw [UInt8.lt_iff_toNat_lt] at small
      change chSize.toNat < 253 at small
      cases read
      refine ⟨by omega, ?_⟩
      rw [writeCompactSize, if_pos small, UInt8.ofNat_toNat]
      rfl
    rename_i large
    split at read
    · rename_i same
      obtain ⟨least, most, rfl⟩ := filter_readFixed_iff.mp read
      refine ⟨by omega, ?_⟩
      rw [writeCompactSize, if_neg (by omega), if_pos (by omega), same]
      rfl
    split at read
    · rename_i same
      obtain ⟨least, most, rfl⟩ := filter_readFixed_iff.mp read
      refine ⟨by omega, ?_⟩
      rw [writeCompactSize, if_neg (by omega), if_neg (by omega), if_pos (by omega), same]
      rfl
    · rename_i not253 not254
      obtain ⟨least, most, rfl⟩ := filter_readFixed_iff.mp read
      have same : chSize = 255 := by
        rw [UInt8.lt_iff_toNat_lt] at large
        rw [← UInt8.toNat_inj] at not253 not254 ⊢
        change ¬ chSize.toNat < 253 at large
        change ¬ chSize.toNat = 253 at not253
        change ¬ chSize.toNat = 254 at not254
        change chSize.toNat = 255
        omega
      refine ⟨by omega, ?_⟩
      rw [writeCompactSize, if_neg (by omega), if_neg (by omega), if_neg (by omega), same]
      rfl
  · rintro ⟨fits, written⟩
    unfold writeCompactSize at written
    split at written
    · rename_i small
      injection written with same behind
      have value : chSize.toNat = n := by
        rw [same, UInt8.toNat_ofNat']
        omega
      have less : chSize < 253 := by
        rw [UInt8.lt_iff_toNat_lt, value]
        exact small
      rw [if_pos less, value, behind]
      rfl
    split at written
    · injection written with same behind
      subst same
      exact filter_readFixed_iff.mpr ⟨by omega, by omega, behind⟩
    split at written
    · injection written with same behind
      subst same
      exact filter_readFixed_iff.mpr ⟨by omega, by omega, behind⟩
    · injection written with same behind
      subst same
      exact filter_readFixed_iff.mpr ⟨by omega, by omega, behind⟩

/-- **Only what is written is read.** A compact size is accepted if and only if it is the string
written for a size up to the limit. -/
theorem readCompactSize_iff {bytes rest : List UInt8} {n : Nat} :
    readCompactSize bytes = some (n, rest) ↔
      n ≤ maxSize ∧ bytes = writeCompactSize n ++ rest := by
  cases bytes with
  | nil =>
      refine iff_of_false (by rintro ⟨⟩) ?_
      rintro ⟨-, written⟩
      unfold writeCompactSize at written
      split_ifs at written <;> cases written
  | cons chSize bytes =>
      have form : readCompactSize (chSize :: bytes) = some (n, rest) ↔
          n ≤ maxSize ∧ readForm chSize bytes = some (n, rest) := by
        rw [readCompactSize]
        cases read : readForm chSize bytes with
        | none => simp
        | some found =>
            obtain ⟨nSizeRet, behind⟩ := found
            dsimp only
            constructor
            · intro kept
              split at kept
              · cases kept
              · rename_i small
                cases kept
                exact ⟨Nat.not_lt.mp small, rfl⟩
            · rintro ⟨small, same⟩
              cases same
              exact if_neg (Nat.not_lt.mpr small)
      rw [form, readForm_iff]
      constructor
      · rintro ⟨small, -, written⟩
        exact ⟨small, written⟩
      · rintro ⟨small, written⟩
        refine ⟨small, ?_, written⟩
        unfold maxSize at small
        omega

/-- **The integers of the wire are unambiguous**, for every unsigned type. -/
theorem wire_integers_unambiguous :
    (∀ width n, 0 < width → n < 2 ^ width →
      ∃ bytes, writeVarInt width n = some bytes ∧ bytes.length = getSizeOfVarInt n ∧
        bytes.length ≤ varIntRoom width ∧
        ∀ rest, readVarInt width (bytes ++ rest) = some (n, rest)) ∧
    (∀ width bytes n, denote 0 bytes = some n →
      readVarInt width bytes = some (n % 2 ^ width, [])) ∧
    (∀ first second n, denote 0 first = some n → denote 0 second = some n → first = second) ∧
    ∀ bytes rest n, readCompactSize bytes = some (n, rest) ↔
      n ≤ maxSize ∧ bytes = writeCompactSize n ++ rest := by
  refine ⟨fun width n positive fits => readVarInt_writeVarInt positive fits, ?_, ?_, ?_⟩
  · intro width bytes n complete
    have read := @read_of_denote width 0 n bytes complete
    rwa [Nat.zero_mod] at read
  · intro first second n complete also
    exact denote_inj complete also
  · intro bytes rest n
    exact readCompactSize_iff

/-- A number of each width at which another byte is needed, and a size of three bytes. -/
theorem wire_integers_of_256 :
    (∃ bytes, writeVarInt 32 256 = some bytes ∧ bytes.length = getSizeOfVarInt 256 ∧
        bytes.length ≤ varIntRoom 32 ∧
        ∀ rest, readVarInt 32 (bytes ++ rest) = some (256, rest)) ∧
      readVarInt 64 [0x81, 0x00] = some (256, []) ∧
      ([0x81, 0x00] : List UInt8) = [0x81, 0x00] ∧
      readCompactSize [253, 0, 1, 7] = some (256, [7]) :=
  ⟨wire_integers_unambiguous.1 32 256 (by decide) (by decide),
    wire_integers_unambiguous.2.1 64 [0x81, 0x00] 256 rfl,
    wire_integers_unambiguous.2.2.1 [0x81, 0x00] [0x81, 0x00] 256 rfl rfl,
    (wire_integers_unambiguous.2.2.2 [253, 0, 1, 7] [7] 256).mpr ⟨by decide, rfl⟩⟩

end GiantCore
