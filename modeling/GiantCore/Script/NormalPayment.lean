import GiantCore.Script.Pushes

/-! # Recognising a normal payment

`CScript::IsNormalPaymentScript` walks over the operations of a script of 25 bytes and looks at
all of them but the third, and at no operation that is missing. The third may take what the
fourth and the fifth should be: beside the payment to the hash of a public key, eleven shapes
pass (`isNormalPaymentScript_iff_payToPubkeyHash`).
-/

namespace GiantCore.CScript

/-- `OP_DUP`. -/
def opDup : UInt8 := 0x76

/-- `OP_HASH160`. -/
def opHash160 : UInt8 := 0xa9

/-- `OP_EQUALVERIFY`. -/
def opEqualVerify : UInt8 := 0x88

/-- The loop of `IsNormalPaymentScript`, from an operation on. -/
def isNormalPaymentFrom (i : Nat) (script : CScript) : Bool :=
  if ended : script = [] then true
  else
    have := length_getOp2_lt ended
    let opcode := script.getOp2.opcodeRet
    if i = 0 ∧ opcode ≠ opDup then false
    else if i = 1 ∧ opcode ≠ opHash160 then false
    else if i = 3 ∧ opcode ≠ opEqualVerify then false
    else if i = 4 ∧ opcode ≠ opCheckSig then false
    else if i = 5 then false
    else isNormalPaymentFrom (i + 1) script.getOp2.pc
termination_by script.length

/-- `IsNormalPaymentScript`. -/
def isNormalPaymentScript (script : CScript) : Bool :=
  if script.length ≠ 25 then false else isNormalPaymentFrom 0 script

/-- The payment to the hash of a public key. -/
def payToPubkeyHash (keyID : List UInt8) : CScript :=
  [opDup, opHash160, 20] ++ keyID ++ [opEqualVerify, opCheckSig]

/-- Is the script a payment to the hash of a public key? -/
def IsPayToPubkeyHash (script : CScript) : Prop :=
  ∃ keyID : List UInt8, keyID.length = 20 ∧ script = payToPubkeyHash keyID

/-! ## The walk -/

theorem isNormalPaymentFrom_nil (i : Nat) : isNormalPaymentFrom i [] = true := by
  rw [isNormalPaymentFrom]
  rfl

/-- An operation that is looked at is the one expected at its place. -/
theorem isNormalPaymentFrom_checked {i : Nat} {expected : UInt8} {script : CScript}
    (place : (i, expected) ∈ [(0, opDup), (1, opHash160), (3, opEqualVerify), (4, opCheckSig)])
    (more : script ≠ []) :
    isNormalPaymentFrom i script = true ↔
      script.getOp2.opcodeRet = expected ∧ isNormalPaymentFrom (i + 1) script.getOp2.pc = true := by
  rw [isNormalPaymentFrom, dif_neg more]
  simp only [List.mem_cons, Prod.mk.injEq, List.not_mem_nil, or_false] at place
  obtain ⟨rfl, rfl⟩ | ⟨rfl, rfl⟩ | ⟨rfl, rfl⟩ | ⟨rfl, rfl⟩ := place <;> simp

/-- The third operation is not looked at. -/
theorem isNormalPaymentFrom_two {script : CScript} (more : script ≠ []) :
    isNormalPaymentFrom 2 script = isNormalPaymentFrom 3 script.getOp2.pc := by
  rw [isNormalPaymentFrom, dif_neg more]
  simp

theorem isNormalPaymentFrom_five (script : CScript) :
    isNormalPaymentFrom 5 script = true ↔ script = [] := by
  by_cases ended : script = []
  · subst ended
    simp [isNormalPaymentFrom_nil]
  · rw [isNormalPaymentFrom, dif_neg ended]
    simp [ended]

/-- The opcode of a single byte is not the invalid one, and no push. -/
theorem getOp2_eq_plain {expected : UInt8} {script : CScript} (more : script ≠ [])
    (above : Opcode.opPushData4 < expected) (valid : expected ≠ opInvalidOpcode)
    (read : script.getOp2.opcodeRet = expected) : script = expected :: script.getOp2.pc := by
  cases script with
  | nil => exact absurd rfl more
  | cons opcode bytes =>
      by_cases push : opcode ≤ Opcode.opPushData4
      · rw [getOp2, if_pos push] at read
        have notOpcode : opcode ≠ expected := by
          rintro rfl
          exact absurd push (UInt8.not_le.mpr above)
        split at read
        · exact absurd read.symm valid
        · split at read
          · exact absurd read.symm valid
          · exact absurd read notOpcode
      · rw [getOp2_cons_of_lt (UInt8.not_le.mp push)] at read ⊢
        rw [show opcode = expected from read]

/-- A checked operation is one byte. -/
theorem isNormalPaymentFrom_checked_iff {i : Nat} {expected : UInt8} {script : CScript}
    (place : (i, expected) ∈ [(0, opDup), (1, opHash160), (3, opEqualVerify), (4, opCheckSig)])
    (more : script ≠ []) :
    isNormalPaymentFrom i script = true ↔
      ∃ rest, script = expected :: rest ∧ isNormalPaymentFrom (i + 1) rest = true := by
  have plain : Opcode.opPushData4 < expected ∧ expected ≠ opInvalidOpcode := by
    simp only [List.mem_cons, Prod.mk.injEq, List.not_mem_nil, or_false] at place
    obtain ⟨-, rfl⟩ | ⟨-, rfl⟩ | ⟨-, rfl⟩ | ⟨-, rfl⟩ := place <;> decide
  rw [isNormalPaymentFrom_checked place more]
  constructor
  · rintro ⟨read, onward⟩
    exact ⟨_, getOp2_eq_plain more plain.1 plain.2 read, onward⟩
  · rintro ⟨rest, rfl, onward⟩
    rw [getOp2_cons_of_lt plain.1]
    exact ⟨rfl, onward⟩

/-! ## What the third operation leaves -/

/-- What may be left behind the third operation. -/
def tails : List (List UInt8) := [[], [opEqualVerify], [opEqualVerify, opCheckSig]]

/-- The walk goes through behind the third operation if the end of the script, or the operations
that should be there, follow. -/
theorem isNormalPaymentFrom_three (script : CScript) :
    isNormalPaymentFrom 3 script = true ↔ script ∈ tails := by
  by_cases ended : script = []
  · subst ended
    simp [isNormalPaymentFrom_nil, tails]
  rw [isNormalPaymentFrom_checked_iff (by decide : (3, opEqualVerify) ∈ _) ended]
  have behind (rest : CScript) :
      isNormalPaymentFrom 4 rest = true ↔ rest = [] ∨ rest = [opCheckSig] := by
    by_cases last : rest = []
    · subst last
      simp [isNormalPaymentFrom_nil]
    · rw [isNormalPaymentFrom_checked_iff (by decide : (4, opCheckSig) ∈ _) last]
      simp [isNormalPaymentFrom_five, last]
  simp only [behind, tails, List.mem_cons, List.not_mem_nil, or_false]
  constructor
  · rintro ⟨rest, rfl, rfl | rfl⟩ <;> simp
  · rintro (rfl | rfl | rfl)
    · exact absurd rfl ended
    · exact ⟨[], rfl, .inl rfl⟩
    · exact ⟨[opCheckSig], rfl, .inr rfl⟩

/-- A script passes if it has 25 bytes and the third operation leaves one of three ends. -/
theorem isNormalPaymentScript_iff (script : CScript) :
    isNormalPaymentScript script = true ↔
      script.length = 25 ∧ ∃ third : CScript, script = opDup :: opHash160 :: third ∧
        third.getOp2.pc ∈ tails := by
  unfold isNormalPaymentScript
  split
  · rename_i size
    simp [size]
  rename_i size
  have size := not_not.mp size
  have more : script ≠ [] := by
    rintro rfl
    cases size
  rw [isNormalPaymentFrom_checked_iff (by decide : (0, opDup) ∈ _) more]
  constructor
  · rintro ⟨rest, rfl, onward⟩
    have more : rest ≠ [] := by
      rintro rfl
      cases size
    obtain ⟨third, rfl, further⟩ :=
      (isNormalPaymentFrom_checked_iff (by decide : (1, opHash160) ∈ _) more).mp onward
    have more : third ≠ [] := by
      rintro rfl
      cases size
    rw [isNormalPaymentFrom_two more, isNormalPaymentFrom_three] at further
    exact ⟨size, third, rfl, further⟩
  · rintro ⟨-, third, rfl, left⟩
    have more : third ≠ [] := by
      rintro rfl
      cases size
    refine ⟨_, rfl, ?_⟩
    rw [isNormalPaymentFrom_checked_iff (by decide : (1, opHash160) ∈ _) (by simp)]
    refine ⟨_, rfl, ?_⟩
    rw [isNormalPaymentFrom_two more, isNormalPaymentFrom_three]
    exact left

/-- The bytes before the data of a push that takes all but `left` of 23 bytes, in the four forms of
a push. -/
def headers (left : Nat) : List (List UInt8) :=
  [[UInt8.ofNat (22 - left)], [Opcode.opPushData1, UInt8.ofNat (21 - left)],
    [Opcode.opPushData2, UInt8.ofNat (20 - left), 0],
    [Opcode.opPushData4, UInt8.ofNat (18 - left), 0, 0, 0]]

/-- A push with such a header leaves what it should. -/
theorem getOp2_header {header data tail : List UInt8} (few : tail.length ≤ 2)
    (form : header ∈ headers tail.length) (size : (header ++ (data ++ tail)).length = 23) :
    (getOp2 (header ++ (data ++ tail))).pc = tail := by
  have short : (data ++ tail).length < 2 ^ 32 := by
    rw [List.length_append] at size
    omega
  have pushed {opcode : UInt8} {sizeBytes : List UInt8} (push : opcode ≤ Opcode.opPushData4)
      (width : sizeBytes.length = sizeWidth opcode)
      (exact : (if opcode < Opcode.opPushData1 then opcode.toNat else littleEndian sizeBytes) =
        data.length) :
      (getOp2 (opcode :: sizeBytes ++ (data ++ tail))).pc = tail :=
    congrArg Reading.pc (getOp2_pushed push width exact short)
  have zero : (0 : UInt8).toNat = 0 := rfl
  simp only [headers, List.mem_cons, List.not_mem_nil, or_false] at form
  obtain rfl | rfl | rfl | rfl := form
  all_goals simp only [List.length_append, List.length_cons, List.length_nil] at size
  · have below : UInt8.ofNat (22 - tail.length) < Opcode.opPushData1 := by
      rw [UInt8.lt_iff_toNat_lt, UInt8.toNat_ofNat']
      change _ < 76
      omega
    refine pushed ?_ (if_pos below).symm ?_
    · rw [UInt8.le_iff_toNat_le, UInt8.toNat_ofNat']
      change _ ≤ 78
      omega
    · rw [if_pos below, UInt8.toNat_ofNat']
      omega
  all_goals
    refine pushed (by decide) rfl ?_
    rw [if_neg (by decide)]
    simp only [littleEndian, List.foldr, UInt8.toNat_ofNat', zero]
    omega

/-- A size that one byte holds has no other bytes than zeros behind it. -/
theorem eq_of_littleEndian_lt {first : UInt8} {others : List UInt8}
    (small : littleEndian (first :: others) < 256) :
    first = UInt8.ofNat (littleEndian (first :: others)) ∧
      others = List.replicate others.length 0 := by
  rw [littleEndian_cons] at small ⊢
  have none : littleEndian others = 0 := by omega
  refine ⟨?_, ?_⟩
  · rw [none, Nat.mul_zero, Nat.add_zero, UInt8.ofNat_toNat]
  · clear small
    induction others with
    | nil => rfl
    | cons byte others ih =>
        rw [littleEndian_cons] at none
        rw [List.length_cons, List.replicate_succ, ← ih (by omega)]
        have low : byte.toNat = 0 := by omega
        rw [show byte = 0 from UInt8.toNat_inj.mp low]

/-- A size is one of a header if the push takes all but a few of 23 bytes. -/
theorem mem_headers {opcode : UInt8} {sizeBytes : List UInt8} {left : Nat}
    (push : opcode ≤ Opcode.opPushData4) (width : sizeBytes.length = sizeWidth opcode)
    (few : left ≤ 2)
    (size : (if opcode < Opcode.opPushData1 then opcode.toNat else littleEndian sizeBytes) =
      22 - sizeWidth opcode - left) : opcode :: sizeBytes ∈ headers left := by
  simp only [headers, List.mem_cons, List.not_mem_nil, or_false]
  have counted {count : Nat} (above : ¬ opcode < Opcode.opPushData1)
      (wide : sizeWidth opcode = count + 1) :
      sizeBytes = UInt8.ofNat (21 - count - left) :: List.replicate count 0 := by
    rw [wide] at width size
    rw [if_neg above] at size
    cases sizeBytes with
    | nil => cases width
    | cons first others =>
        obtain ⟨low, zeros⟩ := @eq_of_littleEndian_lt first others (by omega)
        have length : others.length = count := by simpa using width
        rw [length] at zeros
        rw [low, zeros, ← zeros, size, show 22 - (count + 1) = 21 - count by omega]
  by_cases direct : opcode < Opcode.opPushData1
  · have none : sizeWidth opcode = 0 := if_pos direct
    rw [if_pos direct, none] at size
    rw [none] at width
    rw [List.length_eq_zero_iff.mp width, ← UInt8.ofNat_toNat (x := opcode), size]
    exact .inl rfl
  by_cases one : opcode = Opcode.opPushData1
  · subst one
    exact .inr (.inl (by rw [counted direct rfl]; rfl))
  by_cases two : opcode = Opcode.opPushData2
  · subst two
    exact .inr (.inr (.inl (by rw [counted direct rfl]; rfl)))
  have four : opcode = Opcode.opPushData4 := by
    rw [UInt8.le_iff_toNat_le] at push
    rw [UInt8.lt_iff_toNat_lt] at direct
    rw [← UInt8.toNat_inj] at one two ⊢
    change opcode.toNat ≤ 78 at push
    change ¬ opcode.toNat < 76 at direct
    change ¬ opcode.toNat = 76 at one
    change ¬ opcode.toNat = 77 at two
    change opcode.toNat = 78
    omega
  subst four
  exact .inr (.inr (.inr (by rw [counted direct rfl]; rfl)))

/-- What leaves one of the ends has such a header. -/
theorem header_of_getOp2 {third tail : CScript} (few : tail.length ≤ 2)
    (size : third.length = 23) (left : third.getOp2.pc = tail) :
    ∃ header ∈ headers tail.length, ∃ data, third = header ++ (data ++ tail) := by
  cases third with
  | nil => cases size
  | cons opcode bytes =>
      have count : bytes.length = 22 := by simpa using size
      rw [getOp2] at left
      split at left
      · rename_i push
        have widths : sizeWidth opcode ≤ 4 := by
          unfold sizeWidth
          split_ifs <;> omega
        rw [pushSize, if_neg (by omega)] at left
        simp only at left
        have after : (bytes.drop (sizeWidth opcode)).length = 22 - sizeWidth opcode := by
          rw [List.length_drop, count]
        have taken : (bytes.take (sizeWidth opcode)).length = sizeWidth opcode := by
          rw [List.length_take, count]
          omega
        rw [after, Nat.mod_eq_of_lt (by omega)] at left
        generalize value : (if opcode < Opcode.opPushData1 then opcode.toNat
          else littleEndian (bytes.take (sizeWidth opcode))) = nSize at left
        split at left
        · have rest := congrArg List.length left
          rw [after] at rest
          omega
        · have rest := congrArg List.length left
          rw [List.length_drop, after] at rest
          refine ⟨opcode :: bytes.take (sizeWidth opcode),
            mem_headers push taken few (by omega), ?_⟩
          refine ⟨(bytes.drop (sizeWidth opcode)).take nSize, ?_⟩
          rw [← left, List.take_append_drop, List.cons_append, List.take_append_drop]
      · subst left
        simp only at few
        omega

/-! ## The shapes that pass -/

/-- A script of 25 bytes whose third operation is another push than that of 20 bytes in the
shortest form, and takes what should follow it. -/
def Overlooked (script : CScript) : Prop :=
  script.length = 25 ∧ ∃ tail ∈ tails, ∃ header ∈ headers tail.length, header ≠ [20] ∧
    ∃ data, script = [opDup, opHash160] ++ (header ++ (data ++ tail))

theorem length_tail_le {tail : List UInt8} (mem : tail ∈ tails) : tail.length ≤ 2 := by
  simp only [tails, List.mem_cons, List.not_mem_nil, or_false] at mem
  obtain rfl | rfl | rfl := mem <;> decide

/-- The header of the payment stands before its whole end alone. -/
theorem tail_of_header {tail : List UInt8} (mem : tail ∈ tails)
    (form : [20] ∈ headers tail.length) : tail = [opEqualVerify, opCheckSig] := by
  simp only [tails, List.mem_cons, List.not_mem_nil, or_false] at mem
  obtain rfl | rfl | rfl := mem
  · exact absurd form (by decide)
  · exact absurd form (by decide)
  · rfl

theorem head_ne_of_header {left : Nat} {header : List UInt8} (few : left ≤ 2)
    (form : header ∈ headers left) (other : header ≠ [20]) : header.head? ≠ some 20 := by
  have lefts : left = 0 ∨ left = 1 ∨ left = 2 := by omega
  obtain rfl | rfl | rfl := lefts <;>
    simp only [headers, List.mem_cons, List.not_mem_nil, or_false] at form <;>
    obtain rfl | rfl | rfl | rfl := form <;> first | decide | exact absurd rfl other

/-- The scripts that pass are the payments to the hash of a public key and those overlooked. -/
theorem isNormalPaymentScript_iff_or (script : CScript) :
    isNormalPaymentScript script = true ↔ IsPayToPubkeyHash script ∨ Overlooked script := by
  rw [isNormalPaymentScript_iff]
  constructor
  · rintro ⟨size, third, rfl, mem⟩
    have count : third.length = 23 := by simpa using size
    have few := length_tail_le mem
    obtain ⟨header, form, data, split⟩ := header_of_getOp2 few count rfl
    by_cases usual : header = [20]
    · subst usual
      have whole := tail_of_header mem form
      rw [whole] at split
      refine .inl ⟨data, ?_, by rw [split]; simp [payToPubkeyHash]⟩
      rw [split] at count
      simpa using count
    · exact .inr ⟨size, _, mem, header, form, usual, data, by rw [← split]; rfl⟩
  · rintro (⟨keyID, size, rfl⟩ | ⟨size, tail, mem, header, form, -, data, rfl⟩)
    · have count : (([20] : List UInt8) ++ (keyID ++ [opEqualVerify, opCheckSig])).length = 23 := by
        simp [size]
      refine ⟨by simp [payToPubkeyHash, size], [20] ++ (keyID ++ [opEqualVerify, opCheckSig]),
        by simp [payToPubkeyHash], ?_⟩
      rw [getOp2_header (by decide) (by decide) count]
      decide
    · have count : (header ++ (data ++ tail)).length = 23 := by simpa using size
      refine ⟨size, header ++ (data ++ tail), rfl, ?_⟩
      rw [getOp2_header (length_tail_le mem) form count]
      exact mem

/-- An overlooked script is no payment to the hash of a public key. -/
theorem not_isPayToPubkeyHash_of_overlooked {script : CScript} (shape : Overlooked script) :
    ¬ IsPayToPubkeyHash script := by
  rintro ⟨keyID, -, rfl⟩
  obtain ⟨-, tail, mem, header, form, other, data, same⟩ := shape
  have differ := head_ne_of_header (length_tail_le mem) form other
  cases header with
  | nil =>
      simp only [headers, List.mem_cons, List.not_mem_nil, or_false] at form
      obtain none | none | none | none := form <;> cases none
  | cons first others =>
      have heads := congrArg (fun bytes => bytes[2]?) same
      simp only [payToPubkeyHash, List.cons_append, List.nil_append, List.getElem?_cons_succ,
        List.getElem?_cons_zero] at heads
      exact differ heads.symm

/-- A script is recognised if and only if it is a payment to the hash of a public key, but for the
shapes that are overlooked. -/
theorem isNormalPaymentScript_iff_payToPubkeyHash (script : CScript) :
    (isNormalPaymentScript script = true ↔ IsPayToPubkeyHash script) ↔ ¬ Overlooked script := by
  rw [isNormalPaymentScript_iff_or]
  constructor
  · intro exact shape
    exact not_isPayToPubkeyHash_of_overlooked shape (exact.mp (.inr shape))
  · intro none
    exact ⟨fun passed => passed.resolve_right none, .inl⟩

/-- A push of 22 bytes takes the last two operations, and the script passes. -/
theorem isNormalPaymentScript_takes_the_end :
    ¬ (isNormalPaymentScript ([opDup, opHash160, 22] ++ List.replicate 22 0) = true ↔
      IsPayToPubkeyHash ([opDup, opHash160, 22] ++ List.replicate 22 0)) := by
  have shape : Overlooked ([opDup, opHash160, 22] ++ List.replicate 22 0) :=
    ⟨by decide, [], by decide, [22], by decide, by decide, List.replicate 22 0, rfl⟩
  intro exact
  exact not_isPayToPubkeyHash_of_overlooked shape
    (exact.mp ((isNormalPaymentScript_iff_or _).mpr (.inr shape)))

end GiantCore.CScript
