import GiantCore.Foundation.Positional
import Mathlib.Data.List.TakeWhile
import Mathlib.Data.Nat.Digits.Lemmas

/-! # Base 58

`EncodeBase58` and `DecodeBase58` turn digits of one base into those of another in a buffer whose
length is an estimate. The estimate is never too small (`encodeBase58_eq`, `decodeLoop_spec`), and
each function undoes the other (`base58_lossless`). Zeros at the front are counted by an `int`.
-/

namespace GiantCore.Base58

open Foundation.Positional

/-- Why a conversion does not return. -/
inductive Fault where
  /-- `assert(carry == 0)` fails. -/
  | carry
  /-- The count of leading zeros leaves its type. -/
  | overflow
  deriving DecidableEq, Repr

/-- `pszBase58`. -/
def pszBase58 : List UInt8 :=
  ['1', '2', '3', '4', '5', '6', '7', '8', '9', 'A', 'B', 'C', 'D', 'E', 'F', 'G', 'H', 'J', 'K',
    'L', 'M', 'N', 'P', 'Q', 'R', 'S', 'T', 'U', 'V', 'W', 'X', 'Y', 'Z', 'a', 'b', 'c', 'd', 'e',
    'f', 'g', 'h', 'i', 'j', 'k', 'm', 'n', 'o', 'p', 'q', 'r', 's', 't', 'u', 'v', 'w', 'x', 'y',
    'z'].map fun c => UInt8.ofNat c.toNat

/-- The character of zero. -/
def one : UInt8 := 0x31

/-- `isspace`. -/
def isspace (c : UInt8) : Bool := c == 0x20 || (decide (9 ≤ c) && decide (c ≤ 13))

/-- The character of a digit. -/
def charOf (digit : Nat) : UInt8 := pszBase58.getD digit 0

/-- `strchr` on the alphabet, as a digit. -/
def digitOf (c : UInt8) : Option Nat := pszBase58.findIdx? (· == c)

/-- The loop of `EncodeBase58` over the bytes. The buffer is in the order of its reverse
iterators. -/
def encodeLoop : List Nat → List UInt8 → Except Fault (List Nat)
  | b58, [] => .ok b58
  | b58, byte :: rest =>
      if (mulAdd 58 256 b58 byte.toNat).2 = 0 then
        encodeLoop (mulAdd 58 256 b58 byte.toNat).1 rest
      else .error .carry

/-- `EncodeBase58`. -/
def encodeBase58 (vch : List UInt8) : Except Fault (List UInt8) :=
  let zeroes := (vch.takeWhile (· == 0)).length
  let bytes := vch.dropWhile (· == 0)
  if 2 ^ 31 ≤ zeroes then .error .overflow
  else match encodeLoop (List.replicate (bytes.length * 138 / 100 + 1) 0) bytes with
    | .error fault => .error fault
    | .ok b58 => .ok (List.replicate zeroes one ++ (significant b58).map charOf)

/-- The loop of `DecodeBase58` over the characters: the buffer and the characters behind those
converted, or nothing where it returns false. -/
def decodeLoop : List Nat → List UInt8 → Except Fault (Option (List Nat × List UInt8))
  | b256, [] => .ok (some (b256, []))
  | b256, c :: rest =>
      if isspace c then .ok (some (b256, c :: rest))
      else match digitOf c with
        | none => .ok none
        | some carry =>
            if (mulAdd 256 58 b256 carry).2 = 0 then decodeLoop (mulAdd 256 58 b256 carry).1 rest
            else .error .carry

/-- `DecodeBase58` on the characters before the end of a string, with nothing where it returns
false. -/
def decodeBase58 (psz : List UInt8) : Except Fault (Option (List UInt8)) :=
  let text := psz.dropWhile isspace
  let zeroes := (text.takeWhile (· == one)).length
  let digits := text.dropWhile (· == one)
  if 2 ^ 31 ≤ zeroes then .error .overflow
  else match decodeLoop (List.replicate (digits.length * 733 / 1000 + 1) 0) digits with
    | .error fault => .error fault
    | .ok none => .ok none
    | .ok (some (b256, behind)) =>
        if behind.dropWhile isspace = [] then
          .ok (some (List.replicate zeroes 0 ++ (significant b256).map UInt8.ofNat))
        else .ok none

/-! ## The alphabet -/

/-- The character of a digit is read back. -/
theorem digitOf_charOf {digit : Nat} (small : digit < 58) :
    digitOf (charOf digit) = some digit := by
  have table : ∀ digit < 58, digitOf (charOf digit) = some digit := by decide +kernel
  exact table digit small

/-- A character that is read is that of its digit. -/
theorem charOf_of_digitOf {c : UInt8} {digit : Nat} (found : digitOf c = some digit) :
    digit < 58 ∧ charOf digit = c := by
  obtain ⟨bound, same, -⟩ := List.findIdx?_eq_some_iff_getElem.mp found
  refine ⟨bound, ?_⟩
  rw [charOf, List.getD_eq_getElem?_getD, List.getElem?_eq_getElem bound]
  exact eq_of_beq same

/-- No digit is a space. -/
theorem isspace_charOf {digit : Nat} (small : digit < 58) : isspace (charOf digit) = false := by
  have table : ∀ digit < 58, isspace (charOf digit) = false := by decide +kernel
  exact table digit small

/-- The character `1` stands for zero. -/
theorem charOf_eq_one {digit : Nat} (small : digit < 58) : charOf digit = one ↔ digit = 0 := by
  have table : ∀ digit < 58, charOf digit = one ↔ digit = 0 := by decide +kernel
  exact table digit small

/-! ## Encoding -/

/-- The number of bytes from the highest down. -/
def valueOf (bytes : List UInt8) : Nat := Nat.ofDigits 256 (bytes.map UInt8.toNat).reverse

/-- The buffer takes all bytes and holds their number. -/
theorem encodeLoop_eq {b58 : List Nat} {bytes : List UInt8} (bounded : ∀ digit ∈ b58, digit < 58)
    (room : (Nat.ofDigits 58 b58 + 1) * 256 ^ bytes.length ≤ 58 ^ b58.length) :
    ∃ after, encodeLoop b58 bytes = .ok after ∧ (∀ digit ∈ after, digit < 58) ∧
      Nat.ofDigits 58 after = Nat.ofDigits 58 b58 * 256 ^ bytes.length + valueOf bytes := by
  induction bytes generalizing b58 with
  | nil => exact ⟨b58, rfl, bounded, by simp [valueOf]⟩
  | cons byte rest ih =>
      obtain ⟨none, value, left⟩ := mulAdd_step byte.toNat_lt room
      obtain ⟨after, ran, small, total⟩ := ih (mulAdd_lt (by decide) b58 byte.toNat) left
      refine ⟨after, by rw [encodeLoop, if_pos none, ran], small, ?_⟩
      rw [total, value, valueOf, valueOf, List.map_cons, ofDigits_reverse_cons, List.length_cons,
        List.length_map]
      ring

/-- What `EncodeBase58` returns. -/
theorem encodeBase58_eq {vch : List UInt8} (few : (vch.takeWhile (· == 0)).length < 2 ^ 31) :
    encodeBase58 vch = .ok (List.replicate (vch.takeWhile (· == 0)).length one ++
      (Nat.digits 58 (valueOf (vch.dropWhile (· == 0)))).reverse.map charOf) := by
  have estimate : 256 ^ 100 ≤ 58 ^ 138 := by decide +kernel
  have room := @pow_le_pow_room 256 58 (vch.dropWhile (· == 0)).length 138 100 (by decide)
    (by decide) estimate
  obtain ⟨after, ran, small, total⟩ := @encodeLoop_eq
    (List.replicate ((vch.dropWhile (· == 0)).length * 138 / 100 + 1) 0) (vch.dropWhile (· == 0))
    (fun digit mem => by rw [(List.mem_replicate.mp mem).2]; decide)
    (by simpa [Nat.ofDigits_replicate_zero] using room)
  have value : Nat.ofDigits 58 after = valueOf (vch.dropWhile (· == 0)) := by
    rw [total, Nat.ofDigits_replicate_zero, Nat.zero_mul, Nat.zero_add]
  unfold encodeBase58
  rw [if_neg (Nat.not_le.mpr few), ran]
  dsimp only
  rw [significant_eq (by decide) small, value]

/-! ## Decoding -/

/-- The loop either converts all characters before a space, or finds one outside the alphabet. -/
theorem decodeLoop_spec {b256 : List Nat} {text : List UInt8}
    (bounded : ∀ digit ∈ b256, digit < 256)
    (room : (Nat.ofDigits 256 b256 + 1) * 58 ^ text.length ≤ 256 ^ b256.length) :
    (∃ (digits : List Nat) (behind : List UInt8) (after : List Nat),
      text = digits.map charOf ++ behind ∧ (∀ digit ∈ digits, digit < 58) ∧
      (∀ c, behind.head? = some c → isspace c = true) ∧
      decodeLoop b256 text = .ok (some (after, behind)) ∧ (∀ digit ∈ after, digit < 256) ∧
      Nat.ofDigits 256 after =
        Nat.ofDigits 256 b256 * 58 ^ digits.length + Nat.ofDigits 58 digits.reverse) ∨
    decodeLoop b256 text = .ok none ∧ ∃ c ∈ text, digitOf c = none := by
  induction text generalizing b256 with
  | nil => exact .inl ⟨[], [], b256, rfl, by simp, by simp, rfl, bounded, by simp⟩
  | cons c rest ih =>
      by_cases space : isspace c = true
      · exact .inl ⟨[], c :: rest, b256, rfl, by simp, by simp [space],
          by rw [decodeLoop, if_pos space], bounded, by simp⟩
      cases found : digitOf c with
      | none =>
          refine .inr ⟨?_, c, .head _, found⟩
          rw [decodeLoop, if_neg space, found]
      | some carry =>
          obtain ⟨small, same⟩ := charOf_of_digitOf found
          obtain ⟨none, value, left⟩ := mulAdd_step small room
          have ran : decodeLoop b256 (c :: rest) =
              decodeLoop (mulAdd 256 58 b256 carry).1 rest := by
            rw [decodeLoop, if_neg space, found]
            exact if_pos none
          rw [ran]
          obtain ⟨digits, behind, after, split, least, stop, went, fits, total⟩ |
            ⟨failed, other, mem, strange⟩ := ih (mulAdd_lt (by decide) b256 carry) left
          · refine .inl ⟨carry :: digits, behind, after, ?_, ?_, stop, went, fits, ?_⟩
            · rw [List.map_cons, List.cons_append, same, ← split]
            · intro digit mem
              obtain rfl | later := List.mem_cons.mp mem
              · exact small
              · exact least digit later
            · rw [total, value, ofDigits_reverse_cons, List.length_cons]
              ring
          · exact .inr ⟨failed, other, .tail _ mem, strange⟩

/-- The buffer has room for the whole text. -/
theorem room_of_text (text : List UInt8) :
    (Nat.ofDigits 256 (List.replicate (text.length * 733 / 1000 + 1) 0) + 1) * 58 ^ text.length ≤
      256 ^ (List.replicate (text.length * 733 / 1000 + 1) 0).length := by
  have estimate : 58 ^ 1000 ≤ 256 ^ 733 := by decide +kernel
  rw [Nat.ofDigits_replicate_zero, List.length_replicate, Nat.zero_add, Nat.one_mul]
  exact pow_le_pow_room (by decide) (by decide) estimate

/-- The loop reads the digits in front. -/
theorem decodeLoop_fresh (text : List UInt8) :
    (∃ (digits : List Nat) (behind : List UInt8) (after : List Nat),
      text = digits.map charOf ++ behind ∧ (∀ digit ∈ digits, digit < 58) ∧
      (∀ c, behind.head? = some c → isspace c = true) ∧
      decodeLoop (List.replicate (text.length * 733 / 1000 + 1) 0) text =
        .ok (some (after, behind)) ∧
      significant after = (Nat.digits 256 (Nat.ofDigits 58 digits.reverse)).reverse) ∨
    decodeLoop (List.replicate (text.length * 733 / 1000 + 1) 0) text = .ok none ∧
      ∃ c ∈ text, digitOf c = none := by
  have bounded : ∀ digit ∈ List.replicate (text.length * 733 / 1000 + 1) 0, digit < 256 := by
    intro digit mem
    rw [(List.mem_replicate.mp mem).2]
    decide
  obtain ⟨digits, behind, after, split, small, stop, ran, fits, total⟩ | failed :=
    decodeLoop_spec bounded (room_of_text text)
  · refine .inl ⟨digits, behind, after, split, small, stop, ran, ?_⟩
    rw [significant_eq (by decide) fits, total, Nat.ofDigits_replicate_zero, Nat.zero_mul,
      Nat.zero_add]
  · exact .inr failed

/-! ## Zeros at the front -/

section Leading

variable {α : Type} [BEq α] [LawfulBEq α] {zero : α} {rest : List α}

/-- The zeros in front, and what follows them. -/
theorem takeWhile_leading (count : Nat) (first : rest.head? ≠ some zero) :
    (List.replicate count zero ++ rest).takeWhile (· == zero) = List.replicate count zero ∧
      (List.replicate count zero ++ rest).dropWhile (· == zero) = rest := by
  induction count with
  | zero =>
      cases rest with
      | nil => exact ⟨rfl, rfl⟩
      | cons head rest =>
          have differ : (head == zero) = false := by simpa using first
          simp [differ]
  | succ count ih =>
      rw [List.replicate_succ, List.cons_append, List.takeWhile_cons_of_pos (by simp),
        List.dropWhile_cons_of_pos (by simp), ih.1, ih.2]
      exact ⟨rfl, rfl⟩

/-- A list is the zeros in front and the rest. -/
theorem leading_append (list : List α) :
    List.replicate (list.takeWhile (· == zero)).length zero ++ list.dropWhile (· == zero) =
        list ∧
      (list.dropWhile (· == zero)).head? ≠ some zero := by
  induction list with
  | nil => exact ⟨rfl, by simp⟩
  | cons head list ih =>
      by_cases same : head = zero
      · subst same
        simp only [List.takeWhile_cons, List.dropWhile_cons, beq_self_eq_true, if_true]
        rw [List.length_cons, List.replicate_succ, List.cons_append, ih.1]
        exact ⟨rfl, ih.2⟩
      · have differ : (head == zero) = false := by simpa using same
        simp only [List.takeWhile_cons, List.dropWhile_cons, differ, Bool.false_eq_true, if_false]
        exact ⟨rfl, by simpa using same⟩

end Leading

/-- A number has no leading zero. -/
theorem head?_digits_ne {base : Nat} (n : Nat) :
    (Nat.digits base n).reverse.head? ≠ some 0 := by
  by_cases zero : n = 0
  · subst zero
    simp
  · have last := Nat.getLast_digit_ne_zero base zero
    rw [List.head?_reverse, List.getLast?_eq_getLast_of_ne_nil, Ne, Option.some_inj]
    exact last

/-- Digits are lost in their characters nowhere. -/
theorem map_charOf_inj {first second : List Nat} (small : ∀ digit ∈ first, digit < 58)
    (other : ∀ digit ∈ second, digit < 58) (same : first.map charOf = second.map charOf) :
    first = second := by
  have back {digits : List Nat} (bounded : ∀ digit ∈ digits, digit < 58) :
      (digits.map charOf).map digitOf = digits.map some := by
    rw [List.map_map]
    exact List.map_congr_left fun digit mem => digitOf_charOf (bounded digit mem)
  have found := congrArg (List.map digitOf) same
  rw [back small, back other] at found
  exact List.map_injective_iff.mpr (Option.some_injective _) found

/-- Bytes are digits to the base 256. -/
theorem map_toNat_lt (bytes : List UInt8) : ∀ digit ∈ bytes.map UInt8.toNat, digit < 256 := by
  intro digit mem
  obtain ⟨byte, -, rfl⟩ := List.mem_map.mp mem
  exact byte.toNat_lt

/-- Bytes are the numbers that they are. -/
theorem map_ofNat_toNat (bytes : List UInt8) :
    (bytes.map UInt8.toNat).map UInt8.ofNat = bytes := by
  rw [List.map_map]
  exact List.map_id'' (fun _ => UInt8.ofNat_toNat) bytes

/-- Bytes that do not begin with zero are the digits of their number. -/
theorem bytes_of_valueOf {bytes : List UInt8} (first : bytes.head? ≠ some 0) :
    (Nat.digits 256 (valueOf bytes)).reverse = bytes.map UInt8.toNat := by
  refine digits_reverse_eq (by decide) (map_toNat_lt bytes) ?_
  cases bytes with
  | nil => simp
  | cons byte bytes =>
      intro zero
      rw [List.map_cons, List.head?_cons, Option.some_inj] at zero
      have same : byte = 0 := UInt8.toNat_inj.mp zero
      exact first (by rw [same, List.head?_cons])

/-- The text of some digits behind ones. -/
def textOf (zeroes : Nat) (digits : List Nat) : List UInt8 :=
  List.replicate zeroes one ++ digits.map charOf

/-- A text of digits is taken apart as it was put together. -/
theorem textOf_parts {zeroes : Nat} {digits : List Nat} (small : ∀ digit ∈ digits, digit < 58)
    (first : digits.head? ≠ some 0) :
    (textOf zeroes digits).dropWhile isspace = textOf zeroes digits ∧
      (textOf zeroes digits).takeWhile (· == one) = List.replicate zeroes one ∧
      (textOf zeroes digits).dropWhile (· == one) = digits.map charOf := by
  have start : (digits.map charOf).head? ≠ some one := by
    cases digits with
    | nil => simp
    | cons digit digits =>
        rw [List.map_cons, List.head?_cons, Ne, Option.some_inj,
          charOf_eq_one (small digit (.head _))]
        simpa using first
  refine ⟨?_, takeWhile_leading zeroes start⟩
  cases zeroes with
  | succ zeroes => exact List.dropWhile_cons_of_neg (by decide)
  | zero =>
      cases digits with
      | nil => rfl
      | cons digit digits =>
          exact List.dropWhile_cons_of_neg (by rw [isspace_charOf (small digit (.head _))]; simp)

/-- What `DecodeBase58` makes of the text of digits. -/
theorem decodeBase58_textOf {zeroes : Nat} {digits : List Nat}
    (few : zeroes < 2 ^ 31) (small : ∀ digit ∈ digits, digit < 58)
    (first : digits.head? ≠ some 0) :
    decodeBase58 (textOf zeroes digits) = .ok (some (List.replicate zeroes 0 ++
      (Nat.digits 256 (Nat.ofDigits 58 digits.reverse)).reverse.map UInt8.ofNat)) := by
  obtain ⟨text, ones, others⟩ := @textOf_parts zeroes digits small first
  obtain ⟨found, behind, after, split, least, stop, ran, result⟩ | ⟨-, c, mem, strange⟩ :=
    decodeLoop_fresh (digits.map charOf)
  · have ended : behind = [] := by
      cases behind with
      | nil => rfl
      | cons c behind =>
          have inside : c ∈ digits.map charOf := by
            rw [split]
            exact List.mem_append_right _ (.head _)
          obtain ⟨digit, mem, rfl⟩ := List.mem_map.mp inside
          exact absurd (stop _ rfl) (by simp [isspace_charOf (small digit mem)])
    subst ended
    rw [List.append_nil] at split
    obtain rfl := map_charOf_inj small least split
    unfold decodeBase58
    simp only [text, ones, others, List.length_replicate]
    rw [if_neg (Nat.not_le.mpr few), ran]
    simp only [List.dropWhile_nil, if_true, result]
  · obtain ⟨digit, inside, rfl⟩ := List.mem_map.mp mem
    rw [digitOf_charOf (small digit inside)] at strange
    cases strange

/-- What a text that is accepted without spaces around it looks like. -/
theorem textOf_of_decodeBase58 {psz vch : List UInt8}
    (before : ∀ c, psz.head? = some c → isspace c = false)
    (behind : ∀ c, psz.getLast? = some c → isspace c = false)
    (accepted : decodeBase58 psz = .ok (some vch)) :
    ∃ zeroes digits, zeroes < 2 ^ 31 ∧ (∀ digit ∈ digits, digit < 58) ∧
      digits.head? ≠ some 0 ∧ psz = textOf zeroes digits := by
  have text : psz.dropWhile isspace = psz := by
    cases psz with
    | nil => rfl
    | cons c rest => exact List.dropWhile_cons_of_neg (by simp [before c rfl])
  unfold decodeBase58 at accepted
  simp only [text] at accepted
  split at accepted
  · cases accepted
  rename_i few
  obtain ⟨whole, start⟩ := @leading_append _ _ _ one psz
  obtain ⟨digits, rest, after, split, small, stop, ran, -⟩ | ⟨failed, -⟩ :=
    decodeLoop_fresh (psz.dropWhile (· == one))
  · rw [ran] at accepted
    simp only at accepted
    split at accepted
    · rename_i spaces
      have ended : rest = [] := by
        by_contra more
        have last : psz.getLast? = some (rest.getLast more) := by
          rw [← whole, split, ← List.append_assoc,
            List.getLast?_append_of_ne_nil _ more, List.getLast?_eq_getLast_of_ne_nil more]
        have space : isspace (rest.getLast more) = true :=
          List.dropWhile_eq_nil_iff.mp spaces _ (List.getLast_mem more)
        rw [behind _ last] at space
        cases space
      subst ended
      rw [List.append_nil] at split
      refine ⟨_, digits, Nat.not_le.mp few, small, ?_, by rw [textOf, ← split]; exact whole.symm⟩
      intro first
      rw [split] at start
      cases digits with
      | nil => cases first
      | cons digit digits =>
          rw [List.head?_cons, Option.some_inj] at first
          subst first
          exact start rfl
    · cases accepted
  · rw [failed] at accepted
    cases accepted

/-- The assertion of `DecodeBase58` holds for every string. -/
theorem decodeBase58_ne_carry (psz : List UInt8) : decodeBase58 psz ≠ .error .carry := by
  intro fails
  unfold decodeBase58 at fails
  dsimp only at fails
  split at fails
  · cases fails
  · obtain ⟨digits, rest, after, split, small, stop, ran, -⟩ | ⟨failed, -⟩ :=
      decodeLoop_fresh ((psz.dropWhile isspace).dropWhile (· == one))
    · rw [ran] at fails
      dsimp only at fails
      split at fails <;> cases fails
    · rw [failed] at fails
      cases fails

/-- The carry is always zero in the end. -/
theorem encodeBase58_ne_carry (vch : List UInt8) : encodeBase58 vch ≠ .error .carry := by
  intro fails
  by_cases few : (vch.takeWhile (· == 0)).length < 2 ^ 31
  · rw [encodeBase58_eq few] at fails
    cases fails
  · unfold encodeBase58 at fails
    dsimp only at fails
    rw [if_pos (Nat.not_lt.mp few)] at fails
    cases fails

/-- **Base 58 loses nothing.** The encoding is decoded, the assertions hold, and what is accepted
without spaces around it is the encoding of its result. -/
theorem base58_lossless :
    (∀ vch : List UInt8, (vch.takeWhile (· == 0)).length < 2 ^ 31 →
      ∃ text, encodeBase58 vch = .ok text ∧ decodeBase58 text = .ok (some vch)) ∧
    (∀ vch, encodeBase58 vch ≠ .error .carry) ∧ (∀ psz, decodeBase58 psz ≠ .error .carry) ∧
    ∀ psz vch, (∀ c, psz.head? = some c → isspace c = false) →
      (∀ c, psz.getLast? = some c → isspace c = false) →
      decodeBase58 psz = .ok (some vch) → encodeBase58 vch = .ok psz := by
  refine ⟨?_, encodeBase58_ne_carry, decodeBase58_ne_carry, ?_⟩
  · intro vch few
    obtain ⟨whole, start⟩ := @leading_append _ _ _ 0 vch
    refine ⟨_, encodeBase58_eq few, ?_⟩
    have small : ∀ digit ∈ (Nat.digits 58 (valueOf (vch.dropWhile (· == 0)))).reverse,
        digit < 58 := by
      intro digit mem
      exact Nat.digits_lt_base (by decide) (List.mem_reverse.mp mem)
    have decoded := decodeBase58_textOf few small (head?_digits_ne _)
    rw [List.reverse_reverse, Nat.ofDigits_digits, bytes_of_valueOf start, map_ofNat_toNat,
      whole] at decoded
    exact decoded
  · intro psz vch before behind accepted
    obtain ⟨zeroes, digits, few, small, first, rfl⟩ :=
      textOf_of_decodeBase58 before behind accepted
    rw [decodeBase58_textOf few small first] at accepted
    injection accepted with accepted
    injection accepted with accepted
    generalize number : Nat.ofDigits 58 digits.reverse = n at accepted
    have bytes : ((Nat.digits 256 n).reverse.map UInt8.ofNat).map UInt8.toNat =
        (Nat.digits 256 n).reverse := by
      rw [List.map_map]
      refine (List.map_congr_left fun digit mem => ?_).trans (List.map_id _)
      have least := Nat.digits_lt_base (by decide) (List.mem_reverse.mp mem)
      change (UInt8.ofNat digit).toNat = digit
      rw [UInt8.toNat_ofNat', Nat.mod_eq_of_lt least]
    have start : ((Nat.digits 256 n).reverse.map UInt8.ofNat).head? ≠ some 0 := by
      intro zero
      have head := congrArg (fun bytes : List Nat => bytes.head?) bytes
      rw [List.head?_map, zero] at head
      exact head?_digits_ne n head.symm
    obtain ⟨zeros, rest⟩ := takeWhile_leading zeroes start
    rw [accepted] at zeros rest
    have value : valueOf ((Nat.digits 256 n).reverse.map UInt8.ofNat) = n := by
      rw [valueOf, bytes, List.reverse_reverse, Nat.ofDigits_digits]
    rw [encodeBase58_eq (by rw [zeros, List.length_replicate]; exact few), zeros, rest, value,
      List.length_replicate, ← number, digits_reverse_eq (by decide) small first]
    rfl

/-- Two zeros and a number. -/
theorem base58_lossless_of_zeros :
    (∃ text, encodeBase58 [0, 0, 200] = .ok text ∧ decodeBase58 text = .ok (some [0, 0, 200])) ∧
      encodeBase58 [0] = .ok [one] :=
  ⟨base58_lossless.1 [0, 0, 200] (by decide),
    base58_lossless.2.2.2 [one] [0]
      (by
        rintro c ⟨⟩
        decide)
      (by
        rintro c ⟨⟩
        decide)
      (by decide +kernel)⟩

/-- From `2 ^ 31` leading zeros on the count overflows. -/
theorem encodeBase58_replicate {count : Nat} (many : 2 ^ 31 ≤ count) :
    encodeBase58 (List.replicate count 0) = .error .overflow := by
  have zeros := (@takeWhile_leading UInt8 _ _ 0 [] count (by simp)).1
  rw [List.append_nil] at zeros
  unfold encodeBase58
  simp only [zeros, List.length_replicate]
  exact if_pos many

/-- More zeros than an `int` counts are not encoded. -/
theorem encodeBase58_overflows :
    ¬ ∀ vch : List UInt8,
      ∃ text, encodeBase58 vch = .ok text ∧ decodeBase58 text = .ok (some vch) := by
  intro lossless
  obtain ⟨text, encoded, -⟩ := lossless (List.replicate (2 ^ 31) 0)
  rw [encodeBase58_replicate (Nat.le_refl _)] at encoded
  cases encoded

end GiantCore.Base58
