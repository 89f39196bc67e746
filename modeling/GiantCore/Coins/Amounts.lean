import GiantCore.Chain.Params
import GiantCore.Coins.Compressor

/-! # The range of compressed amounts

`CompressAmount` and `DecompressAmount` over numbers of any size are inverse to each other
(`expand_pack`, `pack_expand`). The 64 bits of the code hold all that happens where they hold the
amount and its compressed form (`compressAmount_bijective`).
-/

namespace GiantCore.CTxOutCompressor

/-! ## Numbers of any size -/

/-- The compressed form of an amount, of any size. -/
def pack (nAmount : Nat) : Nat :=
  if nAmount = 0 then 0
  else
    let (n, e) := stripZeros 9 nAmount 0
    if e < 9 then 1 + (n / 10 * 9 + n % 10 - 1) * 10 + e else 1 + (n - 1) * 10 + 9

/-- The digits before the zeros of a decompressed amount. -/
def leading (x : Nat) : Nat :=
  if (x - 1) % 10 < 9 then (x - 1) / 10 / 9 * 10 + ((x - 1) / 10 % 9 + 1) else (x - 1) / 10 + 1

/-- The amount of a compressed form, of any size. -/
def expand (x : Nat) : Nat := if x = 0 then 0 else leading x * 10 ^ ((x - 1) % 10)

/-- The zeros that were added are taken off. -/
theorem stripZeros_mul {n zeros room : Nat} (e : Nat) (bound : zeros ≤ room)
    (ends : n % 10 ≠ 0 ∨ zeros = room) : stripZeros room (n * 10 ^ zeros) e = (n, e + zeros) := by
  induction zeros generalizing room e with
  | zero =>
      rw [Nat.pow_zero, Nat.mul_one, Nat.add_zero]
      cases room with
      | zero => rfl
      | succ room =>
          have digit : n % 10 ≠ 0 := ends.resolve_right (by omega)
          rw [stripZeros, if_neg digit]
  | succ zeros ih =>
      obtain ⟨less, rfl⟩ : ∃ less, room = less + 1 := ⟨room - 1, by omega⟩
      have product : n * 10 ^ (zeros + 1) = 10 * (n * 10 ^ zeros) := by
        rw [Nat.pow_succ, ← Nat.mul_assoc, Nat.mul_comm]
      rw [stripZeros, product, if_pos (Nat.mul_mod_right 10 _),
        Nat.mul_div_cancel_left _ (by decide), ih (e + 1) (by omega) (ends.imp_right (by omega))]
      congr 1
      omega

/-- What an amount is made of: the digits before its zeros, and the number of the zeros that are
counted. -/
theorem exists_parts {nAmount : Nat} (positive : 0 < nAmount) :
    ∃ n e, e ≤ 9 ∧ 0 < n ∧ (n % 10 ≠ 0 ∨ e = 9) ∧ n * 10 ^ e = nAmount ∧
      stripZeros 9 nAmount 0 = (n, e) := by
  obtain ⟨zeros, bound, exponent, product, left, ends⟩ := stripZeros_spec 9 0 positive
  refine ⟨_, zeros, bound, left, ?_, product, Prod.ext rfl (by rw [exponent, Nat.zero_add])⟩
  by_cases full : zeros = 9
  · exact .inr full
  · exact .inl (ends (by omega))

/-- The parts of an amount and of its compressed form are the same. -/
theorem pack_parts {n e : Nat} (bound : e ≤ 9) (positive : 0 < n)
    (ends : n % 10 ≠ 0 ∨ e = 9) :
    0 < pack (n * 10 ^ e) ∧ (pack (n * 10 ^ e) - 1) % 10 = e ∧ leading (pack (n * 10 ^ e)) = n := by
  have amount : n * 10 ^ e ≠ 0 := (Nat.mul_pos positive (Nat.pow_pos (by decide))).ne'
  have stripped : stripZeros 9 (n * 10 ^ e) 0 = (n, e) := by
    rw [stripZeros_mul 0 bound ends, Nat.zero_add]
  by_cases few : e < 9
  · have digit : n % 10 ≠ 0 := ends.resolve_right (by omega)
    have code : pack (n * 10 ^ e) = 1 + (n / 10 * 9 + n % 10 - 1) * 10 + e := by
      rw [pack, if_neg amount, stripped]
      exact if_pos few
    have exponent : (1 + (n / 10 * 9 + n % 10 - 1) * 10 + e - 1) % 10 = e := by omega
    have rest : (1 + (n / 10 * 9 + n % 10 - 1) * 10 + e - 1) / 10 = n / 10 * 9 + n % 10 - 1 := by
      omega
    rw [code, leading, exponent, if_pos few, rest]
    exact ⟨by omega, rfl, by omega⟩
  · have nine : e = 9 := by omega
    have code : pack (n * 10 ^ e) = 1 + (n - 1) * 10 + 9 := by
      rw [pack, if_neg amount, stripped]
      exact if_neg few
    have exponent : (1 + (n - 1) * 10 + 9 - 1) % 10 = 9 := by omega
    rw [code, leading, exponent, if_neg (by decide)]
    exact ⟨by omega, nine.symm, by omega⟩

/-- The amount is found again. -/
theorem expand_pack (nAmount : Nat) : expand (pack nAmount) = nAmount := by
  obtain rfl | positive := Nat.eq_zero_or_pos nAmount
  · rfl
  obtain ⟨n, e, bound, left, ends, rfl, -⟩ := exists_parts positive
  obtain ⟨some, exponent, digits⟩ := pack_parts bound left ends
  rw [expand, if_neg some.ne', exponent, digits]

/-- The parts of a compressed form. -/
theorem leading_spec (x : Nat) : 0 < leading x ∧
    (leading x % 10 ≠ 0 ∨ (x - 1) % 10 = 9) := by
  unfold leading
  split
  · exact ⟨by omega, .inl (by omega)⟩
  · exact ⟨by omega, .inr (by omega)⟩

/-- Every number is the compressed form of its amount. -/
theorem pack_expand (x : Nat) : pack (expand x) = x := by
  obtain rfl | positive := Nat.eq_zero_or_pos x
  · rfl
  obtain ⟨left, ends⟩ := leading_spec x
  have bound : (x - 1) % 10 ≤ 9 := by omega
  have amount : leading x * 10 ^ ((x - 1) % 10) ≠ 0 :=
    (Nat.mul_pos left (Nat.pow_pos (by decide))).ne'
  rw [expand, if_neg positive.ne', pack, if_neg amount, stripZeros_mul 0 bound ends]
  dsimp only
  unfold leading
  split
  · split <;> omega
  · split <;> omega

/-! ## Sixty-four bits -/

/-- A result of `uint64_t` arithmetic, if it is not reduced. -/
def exact64 (value : Nat) : Option Nat := if value < 2 ^ 64 then some value else none

theorem exact64_of_lt {value : Nat} (fits : value < 2 ^ 64) : exact64 value = some value :=
  if_pos fits

/-- `CompressAmount`, which fails where a result is reduced or the assertion does not hold. -/
def compressExactly (nAmount : Nat) : Option Nat :=
  if nAmount = 0 then some 0
  else
    let (n, e) := stripZeros 9 nAmount 0
    if e < 9 then
      if 1 ≤ n % 10 ∧ n % 10 ≤ 9 then do
        let product ← exact64 (n / 10 * 9)
        let digits ← exact64 (product + n % 10)
        let shifted ← exact64 ((digits - 1) * 10)
        let one ← exact64 (1 + shifted)
        exact64 (one + e)
      else none
    else do
      let shifted ← exact64 ((n - 1) * 10)
      let one ← exact64 (1 + shifted)
      exact64 (one + 9)

/-- The loop of `DecompressAmount` that adds the zeros. -/
def addExactly : Nat → Nat → Option Nat
  | 0, n => some n
  | e + 1, n => do
      let next ← exact64 (n * 10)
      addExactly e next

/-- `DecompressAmount`, which fails where a result is reduced. -/
def decompressExactly (x : Nat) : Option Nat :=
  if x = 0 then some 0
  else
    let e := (x - 1) % 10
    let x := (x - 1) / 10
    if e < 9 then do
      let product ← exact64 (x / 9 * 10)
      let n ← exact64 (product + (x % 9 + 1))
      addExactly e n
    else do
      let n ← exact64 (x + 1)
      addExactly e n

/-- Amount and compressed form fit the 64 bits. -/
def Fits (nAmount : Nat) : Prop := nAmount < 2 ^ 64 ∧ pack nAmount < 2 ^ 64

/-- Within the 64 bits the amount is compressed as it is, without a reduction on the way. -/
theorem compressAmount_eq_pack {nAmount : Nat} (fits : Fits nAmount) :
    compressExactly nAmount = some (pack nAmount) ∧ compressAmount nAmount = pack nAmount := by
  obtain rfl | positive := Nat.eq_zero_or_pos nAmount
  · exact ⟨rfl, rfl⟩
  obtain ⟨n, e, bound, left, ends, product, stripped⟩ := exists_parts positive
  have form := fits.2
  unfold compressExactly compressAmount
  unfold pack at form ⊢
  simp only [if_neg positive.ne', stripped] at form ⊢
  by_cases few : e < 9
  · have digit : n % 10 ≠ 0 := ends.resolve_right (by omega)
    simp only [if_pos few] at form ⊢
    rw [if_pos (by omega), exact64_of_lt (by omega)]
    dsimp only [Option.bind_eq_bind, Option.bind_some]
    rw [exact64_of_lt (by omega)]
    dsimp only [Option.bind_some]
    rw [exact64_of_lt (by omega)]
    dsimp only [Option.bind_some]
    rw [exact64_of_lt (by omega)]
    exact ⟨exact64_of_lt form, Nat.mod_eq_of_lt form⟩
  · simp only [if_neg few] at form ⊢
    rw [exact64_of_lt (by omega)]
    dsimp only [Option.bind_eq_bind, Option.bind_some]
    rw [exact64_of_lt (by omega)]
    exact ⟨exact64_of_lt form, Nat.mod_eq_of_lt form⟩

theorem addExactly_eq {e n : Nat} (fits : n * 10 ^ e < 2 ^ 64) :
    addExactly e n = some (n * 10 ^ e) := by
  induction e generalizing n with
  | zero => rw [addExactly, Nat.pow_zero, Nat.mul_one]
  | succ e ih =>
      have whole : n * 10 ^ (e + 1) = n * 10 * 10 ^ e := by
        rw [Nat.pow_succ, Nat.mul_comm (10 ^ e), Nat.mul_assoc]
      have less : n * 10 < 2 ^ 64 :=
        lt_of_le_of_lt (Nat.le_mul_of_pos_right _ (Nat.pow_pos (by decide))) (whole ▸ fits)
      rw [addExactly, exact64_of_lt less]
      dsimp only [Option.bind_eq_bind, Option.bind_some]
      rw [ih (whole ▸ fits), whole]

/-- Within the 64 bits the amount is decompressed as it is. -/
theorem decompressAmount_eq_expand {x : Nat} (fits : expand x < 2 ^ 64) :
    decompressExactly x = some (expand x) ∧ decompressAmount x = expand x := by
  obtain rfl | positive := Nat.eq_zero_or_pos x
  · exact ⟨rfl, rfl⟩
  have digits : leading x ≤ leading x * 10 ^ ((x - 1) % 10) :=
    Nat.le_mul_of_pos_right _ (Nat.pow_pos (by decide))
  unfold decompressExactly decompressAmount
  unfold expand at fits ⊢
  simp only [if_neg positive.ne'] at fits ⊢
  refine ⟨?_, addZeros_eq fits⟩
  have added := addExactly_eq fits
  unfold leading at fits digits added ⊢
  by_cases few : (x - 1) % 10 < 9
  · simp only [if_pos few] at fits digits added ⊢
    rw [exact64_of_lt (by omega)]
    dsimp only [Option.bind_eq_bind, Option.bind_some]
    rw [exact64_of_lt (by omega)]
    exact added
  · simp only [if_neg few] at fits digits added ⊢
    rw [exact64_of_lt (by omega)]
    exact added

/-- Up to a hundred million coins the 64 bits suffice. -/
theorem fits_of_le {nAmount : Nat} (limit : nAmount ≤ 10 ^ 16) : Fits nAmount := by
  refine ⟨by omega, ?_⟩
  obtain rfl | positive := Nat.eq_zero_or_pos nAmount
  · decide
  obtain ⟨n, e, bound, left, ends, product, stripped⟩ := exists_parts positive
  have less : n ≤ nAmount := product ▸ Nat.le_mul_of_pos_right n (Nat.pow_pos (by decide))
  rw [pack, if_neg positive.ne', stripped]
  dsimp only
  split <;> omega

/-- **The compression of amounts is a bijection** from the amounts for which 64 bits suffice onto
the compressed forms of which 64 bits hold the amount. Nothing is reduced in either direction. -/
theorem compressAmount_bijective :
    (∀ params ∈ [CChainParams.main, CChainParams.testnet, CChainParams.regtest],
      ∀ nAmount : Nat, (nAmount : Int) ≤ params.nMaxMoneyOut → Fits nAmount) ∧
    (∀ nAmount, Fits nAmount →
      compressExactly nAmount = some (compressAmount nAmount) ∧
      decompressExactly (compressAmount nAmount) = some nAmount ∧
      decompressAmount (compressAmount nAmount) = nAmount) ∧
    (∀ x, (∃ nAmount, Fits nAmount ∧ compressAmount nAmount = x) ↔
      x < 2 ^ 64 ∧ expand x < 2 ^ 64) ∧
    ∀ x, x < 2 ^ 64 → expand x < 2 ^ 64 →
      decompressExactly x = some (decompressAmount x) ∧
      compressExactly (decompressAmount x) = some x ∧
      compressAmount (decompressAmount x) = x := by
  have image {x : Nat} (small : x < 2 ^ 64) (fits : expand x < 2 ^ 64) : Fits (expand x) :=
    ⟨fits, by rw [pack_expand]; exact small⟩
  refine ⟨?_, ?_, ?_, ?_⟩
  · intro params network nAmount limit
    have most : params.nMaxMoneyOut ≤ (10 ^ 16 : Int) := by
      simp only [List.mem_cons, List.not_mem_nil, or_false] at network
      rcases network with rfl | rfl | rfl <;> decide
    have least : (nAmount : Int) ≤ (10 ^ 16 : Nat) := Int.le_trans limit most
    exact fits_of_le (Int.ofNat_le.mp least)
  · intro nAmount fits
    obtain ⟨exact, packed⟩ := compressAmount_eq_pack fits
    have back := expand_pack nAmount
    obtain ⟨expanded, decompressed⟩ :=
      @decompressAmount_eq_expand (pack nAmount) (by rw [back]; exact fits.1)
    rw [packed, expanded, decompressed, back]
    exact ⟨exact, rfl, rfl⟩
  · intro x
    constructor
    · rintro ⟨nAmount, fits, rfl⟩
      rw [(compressAmount_eq_pack fits).2, expand_pack]
      exact fits.symm
    · rintro ⟨small, fits⟩
      exact ⟨expand x, image small fits, by
        rw [(compressAmount_eq_pack (image small fits)).2, pack_expand]⟩
  · intro x small fits
    obtain ⟨expanded, decompressed⟩ := decompressAmount_eq_expand fits
    obtain ⟨exact, packed⟩ := compressAmount_eq_pack (image small fits)
    rw [pack_expand] at exact packed
    rw [decompressed]
    exact ⟨expanded, exact, packed⟩

/-- The code of fifty coins, in both directions. -/
theorem compressAmount_bijective_fifty :
    decompressAmount (compressAmount 5000000000) = 5000000000 ∧
      compressAmount (decompressAmount 50) = 50 :=
  ⟨(compressAmount_bijective.2.1 5000000000
      (compressAmount_bijective.1 .main (.head _) 5000000000 (by decide))).2.2,
    (compressAmount_bijective.2.2.2 50 (by decide) (by decide)).2.2⟩

end GiantCore.CTxOutCompressor
