import GiantCore.Script.Script
import GiantCore.Zerocoin.SpendScript

/-! # The script of a zerocoin mint

`CreateZGICOutPut` writes an opcode, the length of the coin's bytes as a script number and a push of
the bytes; `TxOutToPublicCoin` skips `SCRIPT_OFFSET` bytes. The number and the push take fewer bytes
for short coins, so that the first bytes of these are skipped as well
(`txOutToPublicCoin_eq_iff`).
-/

namespace GiantCore

open CScript

/-! ## The bytes of a number -/

/-- Without its first bytes a number is divided. -/
theorem littleEndian_drop (bytes : List UInt8) (k : Nat) :
    littleEndian (bytes.drop k) = littleEndian bytes / 256 ^ k := by
  induction k generalizing bytes with
  | zero => simp
  | succ k ih =>
      cases bytes with
      | nil => simp
      | cons byte rest =>
          have small := byte.toNat_lt
          have quotient : (byte.toNat + 256 * littleEndian rest) / 256 = littleEndian rest := by
            omega
          rw [List.drop_succ_cons, ih, littleEndian_cons, Nat.pow_succ', ← Nat.div_div_eq_div_mul,
            quotient]

/-- A number has as many bytes as its logarithm says. -/
theorem lt_pow_log2 (n : Nat) : n < 256 ^ (n.log2 / 8 + 1) := by
  have bits : n < 2 ^ (n.log2 + 1) := Nat.lt_log2_self
  have bytes : 2 ^ (n.log2 + 1) ≤ 2 ^ (8 * (n.log2 / 8 + 1)) :=
    Nat.pow_le_pow_right (by decide) (by omega)
  rw [Nat.pow_mul] at bytes
  exact bits.trans_le bytes

namespace CBigNum

/-- **The bytes of a positive number**: they are the number, and the sign is not set. -/
theorem getvch_of_pos {n : Nat} (positive : 0 < n) :
    littleEndian (getvch n) = n ∧
      ∃ top, (getvch n).getLast? = some top ∧ (top &&& 0x80 != 0) = false := by
  have value : littleEndian (lowBytes (n.log2 / 8 + 1) n) = n :=
    littleEndian_lowBytes _ (lt_pow_log2 n)
  have nonneg : ¬ (n : Int) < 0 := not_lt.mpr (Int.natCast_nonneg n)
  unfold getvch
  rw [Int.natAbs_natCast]
  generalize lowBytes (n.log2 / 8 + 1) n = bytes at value
  cases last : bytes.getLast? with
  | none =>
      rw [List.getLast?_eq_none_iff.mp last] at value
      exact absurd value positive.ne
  | some top =>
      simp only [last]
      by_cases sign : (top &&& 0x80 != 0) = true
      · have zero : littleEndian [0] = 0 := rfl
        rw [if_pos sign, if_neg nonneg, littleEndian_append, zero, Nat.mul_zero, Nat.add_zero]
        exact ⟨value, 0, List.getLast?_concat, rfl⟩
      · rw [if_neg sign, if_neg nonneg]
        exact ⟨value, top, last, Bool.not_eq_true _ ▸ sign⟩

theorem setvch_of_clear {vch : List UInt8}
    (clear : (vch.getLast?.any fun byte => byte &&& 0x80 != 0) = false) :
    setvch vch = littleEndian vch := by
  unfold setvch
  rw [clear]
  rfl

/-- **A positive number without its first bytes** is read as a quotient. -/
theorem setvch_drop_getvch {n : Nat} (positive : 0 < n) (k : Nat) :
    setvch ((getvch n).drop k) = (n / 256 ^ k : Nat) := by
  obtain ⟨value, top, last, clear⟩ := getvch_of_pos positive
  rw [setvch_of_clear, littleEndian_drop, value]
  by_cases inside : k < (getvch n).length
  · rw [List.getLast?_drop, if_neg (by omega), last]
    exact clear
  · rw [List.drop_eq_nil_of_le (by omega)]
    rfl

/-- It is the number itself only if nothing is skipped. -/
theorem setvch_drop_getvch_eq_iff {value : CBigNum} (positive : 0 < value) (k : Nat) :
    setvch (value.getvch.drop k) = value ↔ k = 0 := by
  obtain ⟨n, rfl⟩ := Int.eq_ofNat_of_zero_le positive.le
  have some_ : 0 < n := Int.natCast_pos.mp positive
  rw [setvch_drop_getvch some_]
  constructor
  · intro same
    by_contra skipped
    have smaller := Nat.div_lt_self some_ (Nat.one_lt_pow skipped (by decide : 1 < 256))
    have equal : n / 256 ^ k = n := by exact_mod_cast same
    omega
  · rintro rfl
    simp

end CBigNum

/-! ## The script -/

/-- The script of a mint. -/
def mintScript (vch : List UInt8) : CScript :=
  opZerocoinMint :: (pushInt64 vch.length ++ pushBytes vch)

/-- `CWallet::CreateZGICOutPut` for the coin that was generated, or nothing if that is not valid. -/
def createZGICOutPut (lib : Libzerocoin) (pubCoin : PublicCoin) : Option CTxOut :=
  if pubCoin.validate lib then
    some {
      nValue := pubCoin.denomination.toAmount
      scriptPubKey := mintScript pubCoin.value.getvch }
  else none

/-- The bytes before the coin. -/
def mintHeader (size : Nat) : Nat :=
  1 + (pushInt64 size).length + if size < Opcode.opPushData1.toNat then 1 else 2

theorem drop_mintScript {vch : List UInt8} (short : vch.length ≤ 129)
    (fits : mintHeader vch.length ≤ scriptOffset) :
    (mintScript vch).drop scriptOffset = vch.drop (scriptOffset - mintHeader vch.length) := by
  obtain ⟨header, pushed, length⟩ : ∃ header, pushBytes vch = header ++ vch ∧
      header.length = if vch.length < Opcode.opPushData1.toNat then 1 else 2 := by
    unfold pushBytes
    dsimp only
    by_cases small : vch.length < Opcode.opPushData1.toNat
    · rw [if_pos small, if_pos small]
      exact ⟨_, rfl, rfl⟩
    · rw [if_neg small, if_neg small, if_pos (by omega)]
      exact ⟨_, rfl, rfl⟩
  have whole : mintScript vch = (opZerocoinMint :: (pushInt64 vch.length ++ header)) ++ vch := by
    rw [mintScript, pushed, List.cons_append, List.append_assoc]
  have front : (opZerocoinMint :: (pushInt64 vch.length ++ header)).length =
      mintHeader vch.length := by
    rw [mintHeader, List.length_cons, List.length_append, length]
    omega
  rw [whole, List.drop_append, front, List.drop_eq_nil_of_le (by omega), List.nil_append]

/-- **The header fills the offset** for coins of 128 and 129 bytes, and is shorter for others. -/
theorem mintHeader_bounds {size : Nat} (short : size ≤ 129) :
    mintHeader size ≤ scriptOffset ∧ (mintHeader size = scriptOffset ↔ 128 ≤ size) := by
  have exactly := length_pushInt64_eq_iff size
  have most : (pushInt64 size).length ≤ 3 := by
    unfold pushInt64
    split
    · exact Nat.le_add_left 1 2
    · split
      · exact Nat.le_add_left 1 2
      · rename_i other nonzero
        have positive : 0 < size := by omega
        rw [List.length_cons, length_serializeNum_of_lt positive (by omega)]
        split <;> omega
  have push : Opcode.opPushData1.toNat = 76 := rfl
  unfold mintHeader scriptOffset
  unfold bignumSize at exactly
  rw [push]
  split
  · omega
  · omega

theorem CoinDenomination.ofAmount_toAmount {denomination : CoinDenomination}
    (proper : denomination ≠ .error) : ofAmount denomination.toAmount = denomination := by
  cases denomination with
  | error => exact absurd rfl proper
  | _ => rfl

theorem length_le_length_mintScript (vch : List UInt8) :
    vch.length ≤ (mintScript vch).length := by
  unfold mintScript pushBytes
  dsimp only
  split_ifs <;> simp only [List.length_cons, List.length_append] <;> omega

/-- **A minted coin is read back exactly if it has at least 128 bytes.** -/
theorem txOutToPublicCoin_eq_iff (lib : Libzerocoin) (coin : PublicCoin)
    (proper : coin.denomination ≠ .error) (positive : 0 < coin.value)
    (short : coin.value.getvch.length ≤ 129) (out : CTxOut)
    (made : createZGICOutPut lib coin = some out) :
    txOutToPublicCoin out = some coin ↔ 128 ≤ coin.value.getvch.length := by
  obtain ⟨fits, fills⟩ := mintHeader_bounds short
  unfold createZGICOutPut at made
  split at made
  · cases made
    unfold txOutToPublicCoin
    dsimp only
    rw [CoinDenomination.ofAmount_toAmount proper]
    by_cases tiny : (mintScript coin.value.getvch).length < scriptOffset
    · have within := length_le_length_mintScript coin.value.getvch
      rw [if_pos (.inl tiny)]
      unfold scriptOffset at tiny
      exact iff_of_false (by simp) (by omega)
    rw [if_neg (not_or.mpr ⟨tiny, proper⟩), drop_mintScript short fits, Option.some.injEq,
      ← fills, PublicCoin.mk.injEq, and_iff_left rfl,
      CBigNum.setvch_drop_getvch_eq_iff positive]
    omega
  · cases made

/-- A library whose coins may have up to 129 bytes. -/
def wideLibrary : Libzerocoin := { Libzerocoin.plain with maxCoinValue := 2 ^ 1024 }

/-- A coin of one denomination with a value of 128 bytes. -/
theorem txOutToPublicCoin_wideCoin :
    txOutToPublicCoin
          { nValue := COIN, scriptPubKey := mintScript (CBigNum.getvch (2 ^ 1020 + 393)) } =
        some ⟨2 ^ 1020 + 393, .one⟩ ↔ 128 ≤ (CBigNum.getvch (2 ^ 1020 + 393)).length :=
  txOutToPublicCoin_eq_iff wideLibrary ⟨2 ^ 1020 + 393, .one⟩ (by decide) (by decide +kernel)
    (by decide +kernel) _ (by decide +kernel)

/-- A coin whose value has 127 bytes is read as another one. -/
theorem not_txOutToPublicCoin_shortCoin :
    ¬ ∀ (lib : Libzerocoin) (coin : PublicCoin),
      coin.denomination ≠ .error → 0 < coin.value →
      coin.value.getvch.length ≤ 129 → ∀ out, createZGICOutPut lib coin = some out →
        txOutToPublicCoin out = some coin := by
  intro all
  have read := all wideLibrary ⟨2 ^ 1010 + 1729, .one⟩ (by decide) (by decide +kernel)
    (by decide +kernel) _ (if_pos (by decide +kernel))
  revert read
  decide +kernel

end GiantCore
