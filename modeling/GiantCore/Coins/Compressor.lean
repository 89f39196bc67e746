import GiantCore.Foundation.VarInt
import GiantCore.Primitives.Transaction

/-! # Compressed outputs

`compressor.h`: an amount without its zeros at the end, and a script in a short form if it pays to a
key hash, a script hash or a public key. Both are read back (`decompressAmount_compressAmount`,
`unserialize_serialize_script`).
-/

namespace GiantCore

open GiantCore.Foundation

/-! ## Amounts -/

namespace CTxOutCompressor

/-- Divide by ten while there are zeros at the end, at most as often as is left. -/
def stripZeros : Nat → Nat → Nat → Nat × Nat
  | 0, n, e => (n, e)
  | room + 1, n, e => if n % 10 = 0 then stripZeros room (n / 10) (e + 1) else (n, e)

/-- `CompressAmount`. -/
def compressAmount (nAmount : Nat) : Nat :=
  if nAmount = 0 then 0
  else
    let (n, e) := stripZeros 9 nAmount 0
    if e < 9 then (1 + (n / 10 * 9 + n % 10 - 1) * 10 + e) % 2 ^ 64
    else (1 + (n - 1) * 10 + 9) % 2 ^ 64

/-- Multiply by ten some times. -/
def addZeros : Nat → Nat → Nat
  | 0, n => n
  | e + 1, n => addZeros e (n * 10 % 2 ^ 64)

/-- `DecompressAmount`. -/
def decompressAmount (x : Nat) : Nat :=
  if x = 0 then 0
  else
    -- x = 10 * (9 * n + d - 1) + e
    let e := (x - 1) % 10
    let x := (x - 1) / 10
    addZeros e (if e < 9 then x / 9 * 10 + (x % 9 + 1) else x + 1)

/-- What is left has no zero at the end, unless nine were taken off. -/
theorem stripZeros_spec (room e : Nat) {n : Nat} (positive : 0 < n) :
    ∃ zeros, zeros ≤ room ∧ (stripZeros room n e).2 = e + zeros ∧
      (stripZeros room n e).1 * 10 ^ zeros = n ∧ 0 < (stripZeros room n e).1 ∧
        (zeros < room → (stripZeros room n e).1 % 10 ≠ 0) := by
  induction room generalizing n e with
  | zero => exact ⟨0, le_rfl, rfl, by simp [stripZeros], positive,
    fun less => absurd less (by simp)⟩
  | succ room ih =>
      unfold stripZeros
      split
      · rename_i zero
        obtain ⟨zeros, bound, exponent, product, left, ends⟩ :=
          ih (e + 1) (n := n / 10) (by omega)
        refine ⟨zeros + 1, by omega, by omega, ?_, left, fun less => ends (by omega)⟩
        rw [Nat.pow_succ, ← Nat.mul_assoc, product]
        omega
      · rename_i digit
        exact ⟨0, Nat.zero_le _, rfl, by simp, positive, fun _ => digit⟩

theorem addZeros_eq {e n : Nat} (fits : n * 10 ^ e < 2 ^ 64) : addZeros e n = n * 10 ^ e := by
  induction e generalizing n with
  | zero => simp [addZeros]
  | succ e ih =>
      have whole : n * 10 ^ (e + 1) = n * 10 * 10 ^ e := by
        rw [Nat.pow_succ, Nat.mul_comm (10 ^ e), Nat.mul_assoc]
      have less : n * 10 < 2 ^ 64 :=
        lt_of_le_of_lt (Nat.le_mul_of_pos_right _ (Nat.pow_pos (by decide))) (whole ▸ fits)
      rw [addZeros, Nat.mod_eq_of_lt less, ih (whole ▸ fits), whole]

theorem compressAmount_lt (nAmount : Nat) : compressAmount nAmount < 2 ^ 64 := by
  unfold compressAmount
  split
  · decide
  · dsimp only
    split
    · exact Nat.mod_lt _ (by decide)
    · exact Nat.mod_lt _ (by decide)

/-- **An amount is read back** if it is at most a hundred million coins. -/
theorem decompressAmount_compressAmount {nAmount : Nat} (limit : nAmount ≤ 10 ^ 16) :
    decompressAmount (compressAmount nAmount) = nAmount := by
  by_cases zero : nAmount = 0
  · rw [zero]
    rfl
  obtain ⟨zeros, bound, exponent, product, left, ends⟩ :=
    stripZeros_spec 9 0 (Nat.pos_of_ne_zero zero)
  unfold compressAmount
  rw [if_neg zero]
  generalize stripZeros 9 nAmount 0 = stripped at *
  obtain ⟨n, e⟩ := stripped
  dsimp only at *
  rw [Nat.zero_add] at exponent
  subst exponent
  have less : n ≤ nAmount := product ▸ Nat.le_mul_of_pos_right n (Nat.pow_pos (by decide))
  have fits : n * 10 ^ e < 2 ^ 64 := by
    rw [product]
    exact lt_of_le_of_lt limit (by decide)
  split
  · rename_i few
    have digit := ends few
    have code : (1 + (n / 10 * 9 + n % 10 - 1) * 10 + e) % 2 ^ 64 =
        (n / 10 * 9 + n % 10 - 1) * 10 + e + 1 := by
      omega
    have exponent : ((n / 10 * 9 + n % 10 - 1) * 10 + e) % 10 = e := by omega
    have rest : ((n / 10 * 9 + n % 10 - 1) * 10 + e) / 10 = n / 10 * 9 + n % 10 - 1 := by omega
    rw [code, decompressAmount, if_neg (Nat.succ_ne_zero _), Nat.add_sub_cancel]
    dsimp only
    rw [exponent, rest, if_pos few, ← product, ← addZeros_eq fits]
    congr 1
    omega
  · rename_i many
    have nine : e = 9 := by omega
    subst nine
    have code : (1 + (n - 1) * 10 + 9) % 2 ^ 64 = (n - 1) * 10 + 9 + 1 := by omega
    have exponent : ((n - 1) * 10 + 9) % 10 = 9 := by omega
    have rest : ((n - 1) * 10 + 9) / 10 = n - 1 := by omega
    rw [code, decompressAmount, if_neg (Nat.succ_ne_zero _), Nat.add_sub_cancel]
    dsimp only
    rw [exponent, rest, if_neg (by decide), Nat.sub_add_cancel left, ← product, addZeros_eq fits]

end CTxOutCompressor

/-! ## Scripts -/

/-- What the compressor uses of public keys. -/
structure PubKeyLibrary where
  /-- `CPubKey::IsFullyValid`. -/
  isFullyValid : List UInt8 → Bool
  /-- `CPubKey::Decompress`. -/
  decompress : List UInt8 → Option (List UInt8)

/-- A public key on the curve is found from its first coordinate and the parity of the second. -/
def PubKeyLibrary.Restores (lib : PubKeyLibrary) : Prop :=
  ∀ x y last, x.length = 32 → y.length = 31 → lib.isFullyValid (4 :: x ++ y ++ [last]) = true →
    lib.decompress ((2 ||| last &&& 1) :: x) = some (4 :: x ++ y ++ [last])

/-- Take some bytes off a stream. -/
def readBytes (count : Nat) (s : List UInt8) : Option (List UInt8 × List UInt8) :=
  if s.length < count then none else some (s.take count, s.drop count)

namespace CScriptCompressor

/-- `IsToKeyID`. -/
def isToKeyID (script : CScript) : Option (List UInt8) :=
  if script.length = 25 ∧ script.take 3 = [0x76, 0xa9, 20] ∧ script.drop 23 = [0x88, 0xac] then
    some ((script.drop 3).take 20)
  else none

/-- `IsToScriptID`. -/
def isToScriptID (script : CScript) : Option (List UInt8) :=
  if script.length = 23 ∧ script.take 2 = [0xa9, 20] ∧ script.drop 22 = [0x87] then
    some ((script.drop 2).take 20)
  else none

/-- `IsToPubKey`. -/
def isToPubKey (lib : PubKeyLibrary) (script : CScript) : Option (List UInt8) :=
  if script.length = 35 ∧ script.head? = some 33 ∧ script.drop 34 = [0xac] ∧
      (script[1]? = some 2 ∨ script[1]? = some 3) then
    some ((script.drop 1).take 33)
  else if script.length = 67 ∧ script.head? = some 65 ∧ script.drop 66 = [0xac] ∧
      script[1]? = some 4 then
    -- if not fully valid, a case that would not be compressible
    if lib.isFullyValid ((script.drop 1).take 65) then some ((script.drop 1).take 65) else none
  else none

/-- `Compress`. -/
def compress (lib : PubKeyLibrary) (script : CScript) : Option (List UInt8) :=
  match isToKeyID script with
  | some keyID => some (0 :: keyID)
  | none => match isToScriptID script with
    | some scriptID => some (1 :: scriptID)
    | none => match isToPubKey lib script with
      | some pubkey =>
          if pubkey.head? = some 2 ∨ pubkey.head? = some 3 then some (pubkey.take 33)
          else if pubkey.head? = some 4 then
            some ((4 ||| pubkey.getLastD 0 &&& 1) :: (pubkey.drop 1).take 32)
          else none
      | none => none

/-- `GetSpecialSize`. -/
def getSpecialSize (nSize : Nat) : Nat :=
  if nSize = 0 ∨ nSize = 1 then 20
  else if nSize = 2 ∨ nSize = 3 ∨ nSize = 4 ∨ nSize = 5 then 32 else 0

/-- `Decompress`. -/
def decompress (lib : PubKeyLibrary) (nSize : Nat) (bytes : List UInt8) : Option CScript :=
  match nSize with
  | 0 => some ([0x76, 0xa9, 20] ++ bytes ++ [0x88, 0xac])
  | 1 => some ([0xa9, 20] ++ bytes ++ [0x87])
  | 2 => some ([33, 2] ++ bytes ++ [0xac])
  | 3 => some ([33, 3] ++ bytes ++ [0xac])
  | 4 => (lib.decompress (2 :: bytes)).map fun pubkey => 65 :: pubkey ++ [0xac]
  | 5 => (lib.decompress (3 :: bytes)).map fun pubkey => 65 :: pubkey ++ [0xac]
  | _ => none

/-- `nSpecialScripts`. -/
def nSpecialScripts : Nat := 6

/-- The size that is written before a script. -/
def markedSize (script : CScript) : Nat := (script.length + nSpecialScripts) % 2 ^ 32

def serialize (lib : PubKeyLibrary) (script : CScript) : List UInt8 :=
  match compress lib script with
  | some compr => compr
  | none => VarInt.write 5 false (markedSize script) script

def getSerializeSize (lib : PubKeyLibrary) (script : CScript) : Nat :=
  match compress lib script with
  | some compr => compr.length
  | none => script.length + VarInt.size 5 (markedSize script)

/-- Read a script where an empty one stands. -/
def unserialize (lib : PubKeyLibrary) (s : List UInt8) : Option (CScript × List UInt8) := do
  let (nSize, s) ← VarInt.read 32 0 s
  if nSize < nSpecialScripts then
    let (vch, s) ← readBytes (getSpecialSize nSize) s
    return ((decompress lib nSize vch).getD [], s)
  else readBytes (nSize - nSpecialScripts) s

theorem length_serialize (lib : PubKeyLibrary) (script : CScript) :
    (serialize lib script).length = getSerializeSize lib script := by
  unfold serialize getSerializeSize
  cases compress lib script with
  | some compr => rfl
  | none => exact (VarInt.length_write _ _ _ _).trans (Nat.add_comm _ _)

/-! ## Reading back -/

theorem take_drop_split (script : CScript) (first count : Nat) :
    script = script.take first ++ (script.drop first).take count ++
      script.drop (first + count) := by
  rw [List.append_assoc, ← List.drop_drop, List.take_append_drop, List.take_append_drop]

theorem isToKeyID_eq_some {script : CScript} {keyID : List UInt8}
    (found : isToKeyID script = some keyID) :
    keyID.length = 20 ∧ script = [0x76, 0xa9, 20] ++ keyID ++ [0x88, 0xac] := by
  unfold isToKeyID at found
  split at found
  · rename_i shape
    obtain ⟨size, front, back⟩ := shape
    cases found
    refine ⟨by rw [List.length_take, List.length_drop]; omega, ?_⟩
    rw [← front, ← back]
    exact take_drop_split script 3 20
  · cases found

theorem isToScriptID_eq_some {script : CScript} {scriptID : List UInt8}
    (found : isToScriptID script = some scriptID) :
    scriptID.length = 20 ∧ script = [0xa9, 20] ++ scriptID ++ [0x87] := by
  unfold isToScriptID at found
  split at found
  · rename_i shape
    obtain ⟨size, front, back⟩ := shape
    cases found
    refine ⟨by rw [List.length_take, List.length_drop]; omega, ?_⟩
    rw [← front, ← back]
    exact take_drop_split script 2 20
  · cases found

theorem two_le_length {script : CScript} :
    2 ≤ script.length ↔ ∃ first second rest, script = first :: second :: rest := by
  constructor
  · intro long
    match script, long with
    | first :: second :: rest, _ => exact ⟨first, second, rest, rfl⟩
  · rintro ⟨first, second, rest, rfl⟩
    simp

/-- A key that is compressed is short, or it is long and valid. -/
theorem isToPubKey_eq_some {lib : PubKeyLibrary} {script : CScript} {pubkey : List UInt8}
    (found : isToPubKey lib script = some pubkey) :
    (∃ header x, (header = 2 ∨ header = 3) ∧ x.length = 32 ∧ pubkey = header :: x ∧
      script = 33 :: header :: x ++ [0xac]) ∨
    ∃ x y last, x.length = 32 ∧ y.length = 31 ∧ pubkey = 4 :: x ++ y ++ [last] ∧
      lib.isFullyValid pubkey = true ∧ script = 65 :: pubkey ++ [0xac] := by
  unfold isToPubKey at found
  split at found
  · rename_i shape
    obtain ⟨size, push, back, header⟩ := shape
    obtain ⟨first, second, key, rfl⟩ : ∃ first second key, script = first :: second :: key :=
      two_le_length.mp (by omega)
    cases found
    rw [List.head?_cons, Option.some.injEq] at push
    rw [List.getElem?_cons_succ, List.getElem?_cons_zero, Option.some.injEq,
      Option.some.injEq] at header
    simp only [List.length_cons, List.drop_succ_cons] at size back
    refine Or.inl ⟨second, key.take 32, header, by rw [List.length_take]; omega, rfl, ?_⟩
    rw [push, List.cons_append, List.cons_append, ← back, List.take_append_drop]
  · split at found
    · rename_i shape
      obtain ⟨size, push, back, header⟩ := shape
      split at found
      · rename_i valid
        obtain ⟨first, second, key, rfl⟩ : ∃ first second key, script = first :: second :: key :=
          two_le_length.mp (by omega)
        cases found
        rw [List.head?_cons, Option.some.injEq] at push
        rw [List.getElem?_cons_succ, List.getElem?_cons_zero, Option.some.injEq] at header
        simp only [List.length_cons, List.drop_succ_cons] at size back
        subst push header
        have long : (key.take 64).length = 64 := by rw [List.length_take]; omega
        obtain ⟨last, lasts⟩ : ∃ last, (key.take 64).drop 63 = [last] :=
          List.length_eq_one_iff.mp (by rw [List.length_drop, long])
        refine Or.inr ⟨(key.take 64).take 32, ((key.take 64).drop 32).take 31, last,
          by rw [List.length_take]; omega, by rw [List.length_take, List.length_drop]; omega,
          ?_, valid, ?_⟩
        · rw [← lasts]
          exact congrArg (4 :: ·) (take_drop_split (key.take 64) 32 31)
        · refine congrArg (65 :: 4 :: ·) ?_
          rw [← back]
          exact (List.take_append_drop 64 key).symm
      · cases found
    · cases found

theorem parity (byte : UInt8) : byte &&& 1 = 0 ∨ byte &&& 1 = 1 := by
  have low : (byte &&& 1).toNat = byte.toNat % 2 := by
    rw [UInt8.toNat_and]
    exact Nat.and_one_is_mod _
  rcases Nat.mod_two_eq_zero_or_one byte.toNat with even | odd
  · exact Or.inl (UInt8.toNat_inj.mp (low.trans even))
  · exact Or.inr (UInt8.toNat_inj.mp (low.trans odd))

/-- **A script is read back**, with what follows it. -/
theorem unserialize_serialize_script {lib : PubKeyLibrary} (restores : lib.Restores)
    {script : CScript}
    (fits : script.length + nSpecialScripts < 2 ^ 32) (rest : List UInt8) :
    unserialize lib (serialize lib script ++ rest) = some (script, rest) := by
  have taken : ∀ bytes : List UInt8,
      readBytes bytes.length (bytes ++ rest) = some (bytes, rest) := by
    intro bytes
    rw [readBytes, if_neg (by rw [List.length_append]; omega), List.take_left, List.drop_left]
  have special : ∀ (code : UInt8) (bytes : List UInt8), code.toNat < nSpecialScripts →
      bytes.length = getSpecialSize code.toNat → decompress lib code.toNat bytes = some script →
        unserialize lib (code :: bytes ++ rest) = some (script, rest) := by
    intro code bytes small size found
    have read : VarInt.read 32 0 (code :: bytes ++ rest) = some (code.toNat, bytes ++ rest) :=
      VarInt.read_byte _ (lt_trans small (by decide)) (by decide)
    simp only [unserialize, read, Option.bind_eq_bind, Option.bind_some, if_pos small, ← size,
      taken, found, Option.getD_some, Option.pure_def]
  unfold serialize
  cases compressed : compress lib script with
  | none =>
      have read : VarInt.read 32 0 (VarInt.write 5 false (markedSize script) script ++ rest) =
          some (markedSize script, script ++ rest) := by
        rw [VarInt.write_append]
        exact VarInt.read_write_eq (by decide) (Nat.mod_lt _ (by decide)) _
      have marked : markedSize script = script.length + nSpecialScripts := Nat.mod_eq_of_lt fits
      rw [marked] at read
      simp only [unserialize, marked, read, Option.bind_eq_bind, Option.bind_some,
        if_neg (Nat.not_lt.mpr (Nat.le_add_left _ _)), Nat.add_sub_cancel]
      exact taken script
  | some compr =>
      dsimp only
      unfold compress at compressed
      split at compressed
      · rename_i keyID found
        obtain ⟨size, whole⟩ := isToKeyID_eq_some found
        cases compressed
        exact special 0 keyID (by decide) size (by rw [whole]; rfl)
      · split at compressed
        · rename_i scriptID found
          obtain ⟨size, whole⟩ := isToScriptID_eq_some found
          cases compressed
          exact special 1 scriptID (by decide) size (by rw [whole]; rfl)
        · split at compressed
          · rename_i pubkey found
            rcases isToPubKey_eq_some found with ⟨header, x, short, size, rfl, whole⟩ |
              ⟨x, y, last, size, length, rfl, valid, whole⟩
            · have front : (header :: x).take 33 = header :: x :=
                List.take_of_length_le (by rw [List.length_cons, size])
              rcases short with rfl | rfl
              · cases compressed
                rw [front]
                exact special 2 x (by decide) size (by rw [whole]; rfl)
              · cases compressed
                rw [front]
                exact special 3 x (by decide) size (by rw [whole]; rfl)
            · have restored := restores x y last size length valid
              have front : (List.drop 1 (4 :: x ++ y ++ [last])).take 32 = x := by
                rw [← size, List.append_assoc]
                exact List.take_left
              have back : (4 :: x ++ y ++ [last]).getLastD 0 = last := by
                rw [List.getLastD_eq_getLast?, List.getLast?_concat, Option.getD_some]
              have header : (4 :: x ++ y ++ [last]).head? = some 4 := rfl
              rw [header, if_neg (by decide), if_pos rfl, front, back] at compressed
              cases compressed
              rcases parity last with even | odd
              · rw [even] at restored ⊢
                have restored : lib.decompress (2 :: x) = some (4 :: x ++ y ++ [last]) := restored
                refine special 4 x (by decide) size ?_
                change (lib.decompress (2 :: x)).map _ = _
                rw [restored, whole]
                rfl
              · rw [odd] at restored ⊢
                have restored : lib.decompress (3 :: x) = some (4 :: x ++ y ++ [last]) := restored
                refine special 5 x (by decide) size ?_
                change (lib.decompress (3 :: x)).map _ = _
                rw [restored, whole]
                rfl
          · cases compressed

end CScriptCompressor

end GiantCore
