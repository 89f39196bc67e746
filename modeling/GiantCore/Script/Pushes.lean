import GiantCore.Script.Standard

/-! # Appending to a script and reading it back

`CScript::operator<<` writes an opcode, or data behind one of four forms of their size;
`CScript::GetOp2` reads one operation and leaves its iterator where it stopped. Sizes are counted
in 32 bits on both sides, so what is appended is read back where the script is shorter than that
(`operations_append`).
-/

namespace GiantCore.CScript

/-- What a call of `GetOp2` leaves: what it returns, the opcode, the data, and what the iterator
stands before. -/
structure Reading where
  fRet : Bool
  opcodeRet : UInt8
  vchRet : Valtype
  pc : CScript
  deriving DecidableEq, Repr

/-- `GetOp2`. The bytes that are left are counted as an `unsigned int`. -/
def getOp2 : CScript → Reading
  | [] => ⟨false, opInvalidOpcode, [], []⟩
  | opcode :: bytes =>
      if opcode ≤ Opcode.opPushData4 then
        match pushSize opcode bytes with
        | none => ⟨false, opInvalidOpcode, [], bytes⟩
        | some (nSize, rest) =>
            if rest.length % 2 ^ 32 < nSize then ⟨false, opInvalidOpcode, [], rest⟩
            else ⟨true, opcode, rest.take nSize, rest.drop nSize⟩
      else ⟨true, opcode, [], bytes⟩

theorem getOp2_cons_of_lt {opcode : UInt8} {bytes : List UInt8}
    (above : Opcode.opPushData4 < opcode) :
    getOp2 (opcode :: bytes) = ⟨true, opcode, [], bytes⟩ :=
  if_neg (UInt8.not_le.mpr above)

/-- The iterator moves on, also where nothing can be read. -/
theorem length_getOp2_lt {script : CScript} (more : script ≠ []) :
    script.getOp2.pc.length < script.length := by
  cases script with
  | nil => exact absurd rfl more
  | cons opcode bytes =>
      rw [getOp2]
      split
      · split
        · exact Nat.lt_succ_self _
        · rename_i sized
          have shorter := length_of_pushSize sized
          split
          · exact Nat.lt_succ_of_le shorter
          · rw [List.length_drop, List.length_cons]
            omega
      · exact Nat.lt_succ_self _

/-- A push is read as the data and the bytes behind them. -/
theorem getOp2_pushed {opcode : UInt8} {sizeBytes data rest : List UInt8}
    (push : opcode ≤ Opcode.opPushData4) (width : sizeBytes.length = sizeWidth opcode)
    (size : (if opcode < Opcode.opPushData1 then opcode.toNat else littleEndian sizeBytes) =
      data.length)
    (short : (data ++ rest).length < 2 ^ 32) :
    getOp2 (opcode :: (sizeBytes ++ (data ++ rest))) = ⟨true, opcode, data, rest⟩ := by
  have sized :
      pushSize opcode (sizeBytes ++ (data ++ rest)) = some (data.length, data ++ rest) := by
    rw [pushSize, if_neg (by rw [List.length_append]; omega), ← width, List.take_left,
      List.drop_left, size]
  rw [getOp2, if_pos push]
  simp only [sized]
  rw [Nat.mod_eq_of_lt short, if_neg (by rw [List.length_append]; omega), List.take_left,
    List.drop_left]

/-! ## Appending -/

/-- What `operator<<` appends. -/
inductive Item where
  | op (opcode : UInt8)
  | data (b : Valtype)
  deriving DecidableEq, Repr

/-- `operator<<`. -/
def append (script : CScript) : Item → CScript
  | .op opcode => script ++ [opcode]
  | .data b => script ++ pushBytes b

/-- Opcodes are appended as such only above the pushes. -/
def Item.Plain : Item → Prop
  | .op opcode => Opcode.opPushData4 < opcode
  | .data _ => True

/-- The operations that a loop over `GetOp` sees until it returns false, and what the iterator then
stands before. -/
def operations (script : CScript) : List (UInt8 × Valtype) × CScript :=
  if ended : script = [] then ([], [])
  else
    have := length_getOp2_lt ended
    let reading := script.getOp2
    if reading.fRet then
      let (behind, pc) := operations reading.pc
      ((reading.opcodeRet, reading.vchRet) :: behind, pc)
    else ([], reading.pc)
termination_by script.length

/-- An operation, as what was appended. -/
def itemOf : UInt8 × Valtype → Item
  | (opcode, data) => if opcode ≤ Opcode.opPushData4 then .data data else .op opcode

/-- The bytes of one item. -/
def Item.bytes : Item → CScript
  | .op opcode => [opcode]
  | .data b => pushBytes b

theorem append_eq (script : CScript) (item : Item) :
    script.append item = script ++ item.bytes := by
  cases item <;> rfl

theorem foldl_append_eq (script : CScript) (items : List Item) :
    items.foldl append script = script ++ items.flatMap Item.bytes := by
  induction items generalizing script with
  | nil => simp
  | cons item items ih =>
      rw [List.foldl_cons, ih, append_eq, List.flatMap_cons, List.append_assoc]

/-- The size of data, in the form that is written for it. -/
theorem pushBytes_form (b : Valtype) (short : b.length < 2 ^ 32) :
    ∃ opcode sizeBytes, pushBytes b = opcode :: (sizeBytes ++ b) ∧ opcode ≤ Opcode.opPushData4 ∧
      sizeBytes.length = sizeWidth opcode ∧
      (if opcode < Opcode.opPushData1 then opcode.toNat else littleEndian sizeBytes) =
        b.length := by
  unfold pushBytes
  by_cases direct : b.length < Opcode.opPushData1.toNat
  · have small : b.length < 76 := direct
    refine ⟨UInt8.ofNat b.length, [], by simp [direct], ?_, ?_, ?_⟩
    · rw [UInt8.le_iff_toNat_le, UInt8.toNat_ofNat']
      change _ ≤ 78
      omega
    all_goals
      have below : UInt8.ofNat b.length < Opcode.opPushData1 := by
        rw [UInt8.lt_iff_toNat_lt, UInt8.toNat_ofNat']
        change _ < 76
        omega
    · rw [sizeWidth, if_pos below]
      rfl
    · rw [if_pos below, UInt8.toNat_ofNat']
      omega
  · by_cases one : b.length ≤ 0xff
    · refine ⟨Opcode.opPushData1, [UInt8.ofNat b.length], by simp [direct, one], by decide, rfl, ?_⟩
      rw [if_neg (by decide)]
      simp only [littleEndian, List.foldr, UInt8.toNat_ofNat']
      omega
    · by_cases two : b.length ≤ 0xffff
      · refine ⟨Opcode.opPushData2, [UInt8.ofNat (b.length % 256), UInt8.ofNat (b.length / 256)],
          by simp [direct, one, two], by decide, rfl, ?_⟩
        rw [if_neg (by decide)]
        simp only [littleEndian, List.foldr, UInt8.toNat_ofNat']
        omega
      · refine ⟨Opcode.opPushData4, [UInt8.ofNat (b.length % 256),
          UInt8.ofNat (b.length / 256 % 256), UInt8.ofNat (b.length / 65536 % 256),
          UInt8.ofNat (b.length / 16777216)], by simp [direct, one, two], by decide, rfl, ?_⟩
        rw [if_neg (by decide)]
        simp only [littleEndian, List.foldr, UInt8.toNat_ofNat']
        omega

/-- One item is read back, with what stands behind it. -/
theorem getOp2_bytes {item : Item} {rest : CScript} (plain : item.Plain)
    (short : (item.bytes ++ rest).length < 2 ^ 32) :
    ∃ opcode data, getOp2 (item.bytes ++ rest) = ⟨true, opcode, data, rest⟩ ∧
      itemOf (opcode, data) = item := by
  cases item with
  | op opcode =>
      refine ⟨opcode, [], getOp2_cons_of_lt plain, ?_⟩
      rw [itemOf, if_neg (UInt8.not_le.mpr plain)]
  | data b =>
      have bounded : b.length < 2 ^ 32 := by
        have header : b.length ≤ (Item.bytes (.data b)).length := by
          rw [Item.bytes, pushBytes, List.length_append]
          omega
        rw [List.length_append] at short
        omega
      obtain ⟨opcode, sizeBytes, form, push, width, size⟩ := pushBytes_form b bounded
      refine ⟨opcode, b, ?_, if_pos push⟩
      simp only [Item.bytes, form] at short ⊢
      rw [List.cons_append, List.append_assoc] at short ⊢
      refine getOp2_pushed push width size ?_
      rw [List.length_cons, List.length_append] at short
      omega

theorem operations_of_getOp2 {script rest : CScript} {opcode : UInt8} {data : Valtype}
    (read : script.getOp2 = ⟨true, opcode, data, rest⟩) :
    operations script =
      ((opcode, data) :: (operations rest).1, (operations rest).2) := by
  have more : script ≠ [] := by
    rintro rfl
    cases read
  rw [operations, dif_neg more]
  simp only [read, if_true]

/-- What was appended is read back in its order, to the end. -/
theorem operations_append {items : List Item} (plain : ∀ item ∈ items, item.Plain)
    (short : (items.flatMap Item.bytes).length < 2 ^ 32) :
    (operations (items.flatMap Item.bytes)).1.map itemOf = items ∧
      (operations (items.flatMap Item.bytes)).2 = [] := by
  induction items with
  | nil => simp [operations]
  | cons item items ih =>
      rw [List.flatMap_cons] at short ⊢
      obtain ⟨opcode, data, read, same⟩ := getOp2_bytes (plain item (.head _)) short
      have onward := ih (fun other mem => plain other (.tail _ mem)) (by
        rw [List.length_append] at short
        omega)
      rw [operations_of_getOp2 read]
      exact ⟨by rw [List.map_cons, same, onward.1], onward.2⟩

end GiantCore.CScript
