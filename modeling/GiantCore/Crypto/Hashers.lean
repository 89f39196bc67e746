import GiantCore.Foundation.BlockStream
import GiantCore.Foundation.Buffers
import GiantCore.Storage.WireIntegers
import Mathlib.Algebra.Order.Ring.Nat

/-! # Hashes of data in pieces

`CSHA1`, `CSHA256`, `CSHA512` and `CRIPEMD160` keep what is less than a block in a buffer and
transform every whole block; `Finalize` pads. `Transform` is a parameter. The hash of data does not
depend on the pieces in which they were written: it is that of the blocks of the padded data
(`hash_of_pieces`), and padded data stand for one string (`padded_inj`). The keyed hashes are built
of these (`hmac_of_pieces`).
-/

namespace GiantCore

open Foundation.BlockStream Foundation.Buffers CScript

/-- What one hash function has for its own: the size of its blocks, the number in the length of its
padding, what it writes of the number of bits, and its state. -/
structure HashFunction (σ : Type) where
  block : Nat
  padBase : Nat
  sizedesc : Nat → List UInt8
  initialState : σ
  transform : σ → List UInt8 → σ
  output : σ → List UInt8

/-- `WriteBE64`. -/
def writeBE64 (value : Nat) : List UInt8 := (fixedBytes 8 value).reverse

/-- `WriteLE64`. -/
def writeLE64 (value : Nat) : List UInt8 := fixedBytes 8 value

section

variable {σ : Type} (initialState : σ) (transform : σ → List UInt8 → σ) (output : σ → List UInt8)

/-- `CSHA1`. -/
def csha1 : HashFunction σ where
  block := 64
  padBase := 119
  sizedesc := writeBE64
  initialState
  transform
  output

/-- `CSHA256`. -/
def csha256 : HashFunction σ where
  block := 64
  padBase := 119
  sizedesc := writeBE64
  initialState
  transform
  output

/-- `CSHA512`. -/
def csha512 : HashFunction σ where
  block := 128
  padBase := 239
  sizedesc := fun bits => List.replicate 8 0 ++ writeBE64 bits
  initialState
  transform
  output

/-- `CRIPEMD160`. -/
def cripemd160 : HashFunction σ where
  block := 64
  padBase := 119
  sizedesc := writeLE64
  initialState
  transform
  output

end

/-- A hash of data that are still written. -/
structure Hasher (σ : Type) where
  s : σ
  buf : List UInt8
  bytes : Nat := 0
  deriving DecidableEq, Repr

namespace HashFunction

variable {σ : Type} (hash : HashFunction σ)

/-- The constructor, and `Reset`. What is in the buffer does not matter. -/
def start (buf : List UInt8) : Hasher σ := ⟨hash.initialState, buf, 0⟩

/-- `Write`. -/
def write (hasher : Hasher σ) (data : List UInt8) : Hasher σ :=
  let bufsize := hasher.bytes % hash.block
  let fills := bufsize ≠ 0 ∧ hash.block ≤ bufsize + data.length
  let buf := if fills then overwrite hasher.buf bufsize (data.take (hash.block - bufsize))
    else hasher.buf
  let s := if fills then hash.transform hasher.s buf else hasher.s
  let rest := if fills then data.drop (hash.block - bufsize) else data
  let chunks := consume hash.block hash.transform s rest
  { s := chunks.1
    buf := if chunks.2 = [] then buf else overwrite buf (if fills then 0 else bufsize) chunks.2
    bytes := (hasher.bytes + data.length) % 2 ^ 64 }

/-- The padding after a number of bytes. -/
def pad (bytes : Nat) : List UInt8 :=
  0x80 :: List.replicate ((hash.padBase - bytes % hash.block) % hash.block) 0

/-- The hasher after `Finalize`. -/
def finished (hasher : Hasher σ) : Hasher σ :=
  let sizedesc := hash.sizedesc (hasher.bytes * 8 % 2 ^ 64)
  hash.write (hash.write hasher (hash.pad hasher.bytes)) sizedesc

/-- `Finalize`. -/
def finalize (hasher : Hasher σ) : List UInt8 := hash.output (hash.finished hasher).s

/-- Data, and what `Finalize` writes behind them. -/
def padded (data : List UInt8) : List UInt8 :=
  data ++ (hash.pad (data.length % 2 ^ 64) ++ hash.sizedesc (data.length * 8 % 2 ^ 64))

/-- The hash of data: the blocks of the padded data are transformed, one after the other. -/
def digest (data : List UInt8) : List UInt8 :=
  hash.output (consume hash.block hash.transform hash.initialState (hash.padded data)).1

/-- What the four functions have in common: the padding ends at the end of a block. -/
structure Padded : Prop where
  divides : hash.block ∣ 2 ^ 64
  positive : 0 < hash.block
  small : hash.block ≤ hash.padBase
  length : ∀ bits, (hash.sizedesc bits).length + (hash.padBase + 1) = 2 * hash.block
  tells : ∀ {bits bits' : Nat}, bits < 2 ^ 64 → bits' < 2 ^ 64 →
    hash.sizedesc bits = hash.sizedesc bits' → bits = bits'

variable {hash}

/-- A hasher that has taken data, in whatever pieces. -/
structure Absorbed (hash : HashFunction σ) (hasher : Hasher σ) (data : List UInt8) : Prop where
  state : consume hash.block hash.transform hash.initialState data =
    (hasher.s, hasher.buf.take (data.length % hash.block))
  bytes : hasher.bytes = data.length % 2 ^ 64
  length : hasher.buf.length = hash.block

/-- A new hasher has absorbed nothing. -/
theorem absorbed_start {buf : List UInt8}
    (length : buf.length = hash.block) : Absorbed hash (hash.start buf) [] where
  state := consume_of_not (fun whole => absurd whole.2 (Nat.not_le.mpr whole.1)) _
  bytes := rfl
  length

/-- What a write leaves in the buffer. -/
theorem take_left_of_overwrite {buf left : List UInt8} {pos : Nat}
    (fits : pos + left.length ≤ buf.length) :
    (if left = [] then buf else overwrite buf pos left).take (pos + left.length) =
      buf.take pos ++ left := by
  split
  · rename_i nothing
    rw [nothing, List.length_nil, Nat.add_zero, List.append_nil]
  · exact take_overwrite (by omega)

/-- Writing inside the buffer keeps its length. -/
theorem length_of_overwrite {buf left : List UInt8} {pos : Nat}
    (fits : pos + left.length ≤ buf.length) :
    (if left = [] then buf else overwrite buf pos left).length = buf.length := by
  split
  · rfl
  · exact length_overwrite fits

/-- The rest of a write: what waits in the buffer is empty, or stays with all of the data. -/
theorem absorbed_of_rest (positive : 0 < hash.block) {s : σ} {buf rest all : List UInt8}
    {pos bytes : Nat} (length : buf.length = hash.block)
    (waits : pos = 0 ∨ pos + rest.length < hash.block)
    (counts : (pos + rest.length) % hash.block = all.length % hash.block)
    (state : consume hash.block hash.transform hash.initialState all =
      consume hash.block hash.transform s (buf.take pos ++ rest))
    (taken : bytes = all.length % 2 ^ 64) :
    Absorbed hash
      { s := (consume hash.block hash.transform s rest).1
        buf := if (consume hash.block hash.transform s rest).2 = [] then buf
          else overwrite buf pos (consume hash.block hash.transform s rest).2
        bytes } all := by
  have left := @length_left _ _ _ hash.transform positive s rest
  have room : pos + (consume hash.block hash.transform s rest).2.length =
      all.length % hash.block := by
    rw [left, ← counts]
    rcases waits with none | short
    · rw [none, Nat.zero_add, Nat.zero_add]
    · rw [Nat.mod_eq_of_lt short, Nat.mod_eq_of_lt (by omega)]
  have below := Nat.mod_lt all.length positive
  have fits : pos + (consume hash.block hash.transform s rest).2.length ≤ buf.length := by omega
  refine ⟨?_, taken, (length_of_overwrite fits).trans length⟩
  rw [← room, take_left_of_overwrite fits, state]
  rcases waits with none | short
  · rw [none, List.take_zero, List.nil_append, List.nil_append]
  · have front : (buf.take pos).length = pos := List.length_take_of_le (by omega)
    rw [consume_of_not (by rw [List.length_append, front]; omega),
      consume_of_not (by omega)]

/-- **A write takes the data.** -/
theorem Absorbed.write (padded : hash.Padded) {hasher : Hasher σ} {before : List UInt8}
    (absorbed : Absorbed hash hasher before) (data : List UInt8) :
    Absorbed hash (hash.write hasher data) (before ++ data) := by
  have positive := padded.positive
  have length := absorbed.length
  have bufsize : hasher.bytes % hash.block = before.length % hash.block := by
    rw [absorbed.bytes, Nat.mod_mod_of_dvd _ padded.divides]
  have below := Nat.mod_lt before.length positive
  have bytes : (hasher.bytes + data.length) % 2 ^ 64 = (before ++ data).length % 2 ^ 64 := by
    rw [absorbed.bytes, List.length_append, Nat.mod_add_mod]
  have cut := @consume_append _ _ hash.block hash.transform hash.initialState before data
  rw [absorbed.state] at cut
  dsimp only at cut
  rw [← bufsize] at cut below
  have total : (before ++ data).length % hash.block =
      (hasher.bytes % hash.block + data.length) % hash.block := by
    rw [List.length_append, bufsize, Nat.mod_add_mod]
  rw [HashFunction.write]
  generalize hasher.bytes % hash.block = pos at cut below total ⊢
  by_cases fills : pos ≠ 0 ∧ hash.block ≤ pos + data.length
  · simp only [if_pos fills]
    have first : (data.take (hash.block - pos)).length = hash.block - pos :=
      List.length_take_of_le (by omega)
    have front : (hasher.buf.take pos).length = pos := List.length_take_of_le (by omega)
    have whole : overwrite hasher.buf pos (data.take (hash.block - pos)) =
        hasher.buf.take pos ++ data.take (hash.block - pos) := by
      rw [overwrite, List.drop_eq_nil_of_le (by omega), List.append_nil]
    have block : (hasher.buf.take pos ++ data.take (hash.block - pos)).length = hash.block := by
      rw [List.length_append, front, first]
      omega
    rw [whole]
    refine absorbed_of_rest positive block (.inl rfl) ?_ ?_ bytes
    · rw [total, List.length_drop, Nat.zero_add]
      have split : pos + data.length = data.length - (hash.block - pos) + hash.block := by omega
      rw [split, Nat.add_mod_right]
    · rw [cut, List.take_zero, List.nil_append, ← consume_block positive block,
        List.append_assoc, List.take_append_drop]
  · simp only [if_neg fills]
    refine absorbed_of_rest positive length ?_ total.symm cut bytes
    omega

/-- A hasher that has taken pieces. -/
theorem Absorbed.writes (padded : hash.Padded) {hasher : Hasher σ} {before : List UInt8}
    (absorbed : Absorbed hash hasher before) (pieces : List (List UInt8)) :
    Absorbed hash (pieces.foldl hash.write hasher) (before ++ pieces.flatten) := by
  induction pieces generalizing hasher before with
  | nil =>
      rw [List.flatten_nil, List.append_nil]
      exact absorbed
  | cons piece pieces ih =>
      rw [List.flatten_cons, ← List.append_assoc]
      exact ih (absorbed.write padded piece)

/-- `Finalize` takes the padding. -/
theorem Absorbed.finished (padded : hash.Padded) {hasher : Hasher σ} {data : List UInt8}
    (absorbed : Absorbed hash hasher data) :
    Absorbed hash (hash.finished hasher) (hash.padded data) := by
  have after := (absorbed.write padded (hash.pad hasher.bytes)).write padded
    (hash.sizedesc (hasher.bytes * 8 % 2 ^ 64))
  have bits : hasher.bytes * 8 % 2 ^ 64 = data.length * 8 % 2 ^ 64 := by
    rw [absorbed.bytes, Nat.mod_mul_mod]
  rw [HashFunction.finished, HashFunction.padded]
  rw [List.append_assoc, bits, absorbed.bytes] at after
  rw [bits, absorbed.bytes]
  exact after

/-- The hash of what was taken. -/
theorem Absorbed.finalize_eq (padded : hash.Padded) {hasher : Hasher σ} {data : List UInt8}
    (absorbed : Absorbed hash hasher data) : hash.finalize hasher = hash.digest data := by
  rw [finalize, digest, (absorbed.finished padded).state]

/-- The padding fills the last block. -/
theorem length_padded (padded : hash.Padded) (data : List UInt8) :
    hash.block ∣ (hash.padded data).length := by
  have positive := padded.positive
  have size := padded.length (data.length * 8 % 2 ^ 64)
  have small := padded.small
  have same : data.length % 2 ^ 64 % hash.block = data.length % hash.block :=
    Nat.mod_mod_of_dvd _ padded.divides
  rw [HashFunction.padded, pad, List.length_append, List.length_append, List.length_cons,
    List.length_replicate, same]
  have whole := Nat.div_add_mod data.length hash.block
  have zeros := Nat.div_add_mod (hash.padBase - data.length % hash.block) hash.block
  have below := Nat.mod_lt data.length positive
  generalize (hash.padBase - data.length % hash.block) % hash.block = fill at zeros ⊢
  generalize (hash.padBase - data.length % hash.block) / hash.block = skipped at zeros
  generalize data.length / hash.block = front at whole
  have fits : skipped ≤ 2 := by
    by_contra many
    have three : hash.block * 3 ≤ hash.block * skipped := Nat.mul_le_mul_left _ (by omega)
    omega
  refine ⟨front + 2 - skipped, ?_⟩
  rw [Nat.mul_sub, Nat.mul_add]
  have order : hash.block * skipped ≤ hash.block * 2 := Nat.mul_le_mul_left _ fits
  omega

/-- **Padded data stand for one string**, if the number of its bits fits. -/
theorem padded_inj (padded : hash.Padded) {first second : List UInt8}
    (short : first.length < 2 ^ 61) (short' : second.length < 2 ^ 61)
    (same : hash.padded first = hash.padded second) : first = second := by
  have size := padded.length (first.length * 8 % 2 ^ 64)
  have size' := padded.length (second.length * 8 % 2 ^ 64)
  rw [HashFunction.padded, HashFunction.padded, ← List.append_assoc, ← List.append_assoc] at same
  have ends := List.append_inj_right' same (by omega)
  have lengths := padded.tells (Nat.mod_lt _ (by decide)) (Nat.mod_lt _ (by decide)) ends
  have fronts := List.append_inj_left' same (by omega)
  exact List.append_inj_left fronts (by omega)

end HashFunction

/-! ## Hashes of hashes -/

namespace HashFunction

variable {σ τ : Type} (first : HashFunction σ) (second : HashFunction τ)

/-- `CHash160::Finalize`: the hash is hashed by another function, in a buffer of its own. -/
def finalizeTwice (hasher : Hasher σ) (buf : List UInt8) : List UInt8 :=
  second.finalize (second.write (second.start buf) (first.finalize hasher))

/-- `CHash256::Finalize` and `CHash512::Finalize`: the hasher is used again. -/
def finalizeAgain (hasher : Hasher σ) : List UInt8 :=
  finalizeTwice first first hasher (first.finished hasher).buf

variable {first second}

/-- The result of one hash, hashed by another in its place. -/
theorem finalizeTwice_eq (padded : first.Padded) (padded' : second.Padded) {hasher : Hasher σ}
    {data buf : List UInt8} (absorbed : Absorbed first hasher data)
    (length : buf.length = second.block) :
    finalizeTwice first second hasher buf = second.digest (first.digest data) := by
  have written :=
    ((absorbed_start length).write padded' (first.finalize hasher)).finalize_eq padded'
  rw [finalizeTwice, written, List.nil_append, absorbed.finalize_eq padded]

/-- The result, hashed again in the same object. -/
theorem finalizeAgain_eq (padded : first.Padded) {hasher : Hasher σ} {data : List UInt8}
    (absorbed : Absorbed first hasher data) :
    finalizeAgain first hasher = first.digest (first.digest data) :=
  finalizeTwice_eq padded padded absorbed (absorbed.finished padded).length

end HashFunction

/-! ## The four functions -/

/-- Numbers of so many bytes are told apart. -/
theorem fixedBytes_inj {count value value' : Nat} (small : value < 256 ^ count)
    (small' : value' < 256 ^ count) (same : fixedBytes count value = fixedBytes count value') :
    value = value' := by
  rw [← littleEndian_fixedBytes small, same, littleEndian_fixedBytes small']

/-- The low end first: eight bytes. -/
theorem length_writeLE64 (value : Nat) : (writeLE64 value).length = 8 := length_fixedBytes 8 value

/-- The high end first: eight bytes. -/
theorem length_writeBE64 (value : Nat) : (writeBE64 value).length = 8 := by
  rw [writeBE64, List.length_reverse, length_fixedBytes]

/-- `WriteLE64` loses nothing below `2 ^ 64`. -/
theorem writeLE64_inj {value value' : Nat} (small : value < 2 ^ 64) (small' : value' < 2 ^ 64)
    (same : writeLE64 value = writeLE64 value') : value = value' :=
  fixedBytes_inj small small' same

/-- `WriteBE64` loses nothing below `2 ^ 64`. -/
theorem writeBE64_inj {value value' : Nat} (small : value < 2 ^ 64) (small' : value' < 2 ^ 64)
    (same : writeBE64 value = writeBE64 value') : value = value' :=
  fixedBytes_inj small small' (List.reverse_inj.mp same)

section

variable {σ : Type} (initialState : σ) (transform : σ → List UInt8 → σ) (output : σ → List UInt8)

/-- The padding of SHA-1. -/
theorem padded_csha1 : (csha1 initialState transform output).Padded where
  divides := pow_dvd_pow 2 (show 6 ≤ 64 by decide)
  positive := Nat.succ_pos 63
  small := show 64 ≤ 119 by decide
  length bits := congrArg (· + 120) (length_writeBE64 bits)
  tells := writeBE64_inj

/-- The padding of SHA-256. -/
theorem padded_csha256 : (csha256 initialState transform output).Padded where
  divides := pow_dvd_pow 2 (show 6 ≤ 64 by decide)
  positive := Nat.succ_pos 63
  small := show 64 ≤ 119 by decide
  length bits := congrArg (· + 120) (length_writeBE64 bits)
  tells := writeBE64_inj

/-- The padding of SHA-512. -/
theorem padded_csha512 : (csha512 initialState transform output).Padded where
  divides := pow_dvd_pow 2 (show 7 ≤ 64 by decide)
  positive := Nat.succ_pos 127
  small := show 128 ≤ 239 by decide
  length bits := by
    rw [csha512, List.length_append, length_writeBE64, List.length_replicate]
    rfl
  tells small small' same := writeBE64_inj small small' (List.append_cancel_left same)

/-- The padding of RIPEMD-160. -/
theorem padded_cripemd160 : (cripemd160 initialState transform output).Padded where
  divides := pow_dvd_pow 2 (show 6 ≤ 64 by decide)
  positive := Nat.succ_pos 63
  small := show 64 ≤ 119 by decide
  length bits := congrArg (· + 120) (length_writeLE64 bits)
  tells := writeLE64_inj

/-- The four functions, over one state. -/
def hashFunctions : List (HashFunction σ) :=
  [csha1 initialState transform output, csha256 initialState transform output,
    csha512 initialState transform output, cripemd160 initialState transform output]

/-- All four functions are padded alike. -/
theorem padded_of_mem {hash : HashFunction σ}
    (mem : hash ∈ hashFunctions initialState transform output) : hash.Padded := by
  simp only [hashFunctions, List.mem_cons, List.not_mem_nil, or_false] at mem
  rcases mem with rfl | rfl | rfl | rfl
  · exact padded_csha1 ..
  · exact padded_csha256 ..
  · exact padded_csha512 ..
  · exact padded_cripemd160 ..

/-- **A hash does not depend on the pieces** in which data are written, nor on what was in the
buffer, also where it is hashed again; what is transformed are whole blocks, and no other data have
the same. -/
theorem hash_of_pieces {hash : HashFunction σ}
    (mem : hash ∈ hashFunctions initialState transform output) {buf : List UInt8}
    (length : buf.length = hash.block) (pieces : List (List UInt8)) :
    hash.finalize (pieces.foldl hash.write (hash.start buf)) = hash.digest pieces.flatten ∧
      HashFunction.finalizeAgain hash (pieces.foldl hash.write (hash.start buf)) =
        hash.digest (hash.digest pieces.flatten) ∧
      hash.block ∣ (hash.padded pieces.flatten).length ∧
      ∀ other : List UInt8, pieces.flatten.length < 2 ^ 61 → other.length < 2 ^ 61 →
        hash.padded pieces.flatten = hash.padded other → pieces.flatten = other :=
  have padded := padded_of_mem initialState transform output mem
  have absorbed := (HashFunction.absorbed_start length).writes padded pieces
  ⟨absorbed.finalize_eq padded, HashFunction.finalizeAgain_eq padded absorbed,
    HashFunction.length_padded padded _,
    fun _ short short' same => HashFunction.padded_inj padded short short' same⟩

/-- A compression function that depends on every byte of a block. -/
def mixBlock (s : Nat) (block : List UInt8) : Nat :=
  block.foldl (fun mixed byte => mixed * 3 + byte.toNat) s

/-- Seventy bytes, the second write of which crosses the end of a block. -/
def twoWrites : List (List UInt8) := [List.replicate 60 1, List.replicate 10 2]

/-- The two writes give the hash of their bytes, also when it is hashed again. -/
theorem hash_of_pieces_twoWrites :
    let hash := csha256 (0 : Nat) mixBlock fun s => [UInt8.ofNat s]
    hash.finalize (twoWrites.foldl hash.write (hash.start (List.replicate 64 7))) =
        hash.digest twoWrites.flatten ∧
      HashFunction.finalizeAgain hash
          (twoWrites.foldl hash.write (hash.start (List.replicate 64 7))) =
        hash.digest (hash.digest twoWrites.flatten) ∧
      (hash.padded twoWrites.flatten).length = 128 :=
  have pieces := hash_of_pieces (0 : Nat) mixBlock (fun s => [UInt8.ofNat s]) (.tail _ (.head _))
    List.length_replicate twoWrites
  ⟨pieces.1, pieces.2.1, by decide +kernel⟩

end

/-! ## Keyed hashes -/

/-- `CHMAC_SHA256` and `CHMAC_SHA512`. -/
structure Hmac (σ : Type) where
  outer : Hasher σ
  inner : Hasher σ
  deriving DecidableEq, Repr

namespace Hmac

variable {σ : Type} (hash : HashFunction σ) (buf : List UInt8)

/-- `rkey`: a short key, or the hash of a long one, with zeros up to a block. -/
def rkey (key : List UInt8) : List UInt8 :=
  let short := if key.length ≤ hash.block then key
    else hash.finalize (hash.write (hash.start buf) key)
  short ++ List.replicate (hash.block - short.length) 0

/-- The constructor. The bytes of the key are changed in place for the inner hash. -/
def create (key : List UInt8) : Hmac σ :=
  let outerKey := (rkey hash buf key).map (· ^^^ 0x5c)
  let innerKey := outerKey.map (· ^^^ (0x5c ^^^ 0x36))
  ⟨hash.write (hash.start buf) outerKey, hash.write (hash.start buf) innerKey⟩

/-- `Write`. -/
def write (hmac : Hmac σ) (data : List UInt8) : Hmac σ :=
  { hmac with inner := hash.write hmac.inner data }

/-- `Finalize`. -/
def finalize (hmac : Hmac σ) : List UInt8 :=
  let temp := hash.finalize hmac.inner
  hash.finalize (hash.write hmac.outer temp)

/-- The key as a block. -/
def keyBlock (key : List UInt8) : List UInt8 :=
  let short := if key.length ≤ hash.block then key else hash.digest key
  short ++ List.replicate (hash.block - short.length) 0

/-- The keyed hash of data. -/
def mac (key data : List UInt8) : List UInt8 :=
  hash.digest ((keyBlock hash key).map (· ^^^ 0x5c) ++
    hash.digest ((keyBlock hash key).map (· ^^^ 0x36) ++ data))

variable {hash buf}

/-- The key of the inner hash, from that of the outer one in place. -/
theorem xor_innerKey (byte : UInt8) : byte ^^^ 0x5c ^^^ (0x5c ^^^ 0x36) = byte ^^^ 0x36 := by
  rw [UInt8.xor_assoc, ← UInt8.xor_assoc 0x5c, UInt8.xor_self, UInt8.zero_xor]

/-- Data are written to the inner hash. -/
theorem foldl_write (hmac : Hmac σ) (pieces : List (List UInt8)) :
    pieces.foldl (write hash) hmac = ⟨hmac.outer, pieces.foldl hash.write hmac.inner⟩ := by
  induction pieces generalizing hmac with
  | nil => rfl
  | cons piece pieces ih => exact ih (write hash hmac piece)

/-- The key in the buffer is the key as a block. -/
theorem rkey_eq (padded : hash.Padded) (length : buf.length = hash.block) (key : List UInt8) :
    rkey hash buf key = keyBlock hash key := by
  have long := ((HashFunction.absorbed_start length).write padded key).finalize_eq padded
  rw [rkey, keyBlock, long, List.nil_append]

end Hmac

/-- **A keyed hash does not depend on the pieces**: it is the hash of the key and the hash of the
key and the data. -/
theorem hmac_of_pieces {σ : Type} (initialState : σ) (transform : σ → List UInt8 → σ)
    (output : σ → List UInt8) {hash : HashFunction σ}
    (mem : hash ∈ hashFunctions initialState transform output) {buf : List UInt8}
    (length : buf.length = hash.block) (key : List UInt8) (pieces : List (List UInt8)) :
    Hmac.finalize hash (pieces.foldl (Hmac.write hash) (Hmac.create hash buf key)) =
      Hmac.mac hash key pieces.flatten := by
  have padded := padded_of_mem initialState transform output mem
  have fresh := HashFunction.absorbed_start length
  have innerKey : ((Hmac.keyBlock hash key).map (· ^^^ 0x5c)).map (· ^^^ (0x5c ^^^ 0x36)) =
      (Hmac.keyBlock hash key).map (· ^^^ 0x36) := by
    rw [List.map_map]
    exact List.map_congr_left fun byte _ => Hmac.xor_innerKey byte
  have inner := ((fresh.write padded ((Hmac.keyBlock hash key).map (· ^^^ 0x36))).writes padded
    pieces).finalize_eq padded
  have outer := ((fresh.write padded ((Hmac.keyBlock hash key).map (· ^^^ 0x5c))).write padded
    (hash.digest ((Hmac.keyBlock hash key).map (· ^^^ 0x36) ++ pieces.flatten))).finalize_eq padded
  rw [Hmac.foldl_write, Hmac.finalize, Hmac.create, Hmac.rkey_eq padded length, innerKey]
  rw [List.nil_append] at inner outer
  rw [inner, outer, Hmac.mac]

/-- A keyed hash of two writes. -/
theorem hmac_of_pieces_twoWrites :
    let hash := csha256 (0 : Nat) (fun s block => s + block.length) fun s => [UInt8.ofNat s]
    Hmac.finalize hash ([[1], [2, 3]].foldl (Hmac.write hash)
        (Hmac.create hash (List.replicate 64 7) [9])) = Hmac.mac hash [9] [1, 2, 3] :=
  hmac_of_pieces (0 : Nat) (fun s block => s + block.length) (fun s => [UInt8.ofNat s])
    (.tail _ (.head _)) List.length_replicate [9] [[1], [2, 3]]

end GiantCore
