import GiantCore.Validation.BlockPayments

/-! # Checking a block

`CheckBlock` of `main.cpp` up to the payee check, with `CheckBlockHeader` and
`CheckProofOfWork`. A rule that a block breaks is recorded in the
`CValidationState`, which the error carries.

The shape of a block is judged by its transactions: a block is proof-of-stake
if its second transaction is a coinstake. The payee check goes by the height
instead, and reads the second transaction of every block after the last
proof-of-work height. A block with nothing but a coinbase passes all earlier
rules at any height.
-/

namespace GiantCore

/-- The result of a rule that was broken. -/
structure CValidationState where
  nDoS : Int := 0
  chRejectCode : UInt8 := 0
  strRejectReason : String := ""
  corruptionPossible : Bool := false
  /-- An exception has left the function, and no rule was recorded. -/
  thrown : Bool := false
  deriving DecidableEq, Repr

/-- `REJECT_INVALID`. -/
def rejectInvalid : UInt8 := 0x10

namespace CValidationState

/-- `DoS`: levels add up, the rest is overwritten. -/
def doS (state : CValidationState) (level : Int) (chRejectCode : UInt8 := 0)
    (strRejectReason : String := "") (corruptionPossible : Bool := false) : CValidationState :=
  { nDoS := state.nDoS + level, chRejectCode, strRejectReason, corruptionPossible }

/-- `Invalid`. -/
def invalid (state : CValidationState) (chRejectCode : UInt8) (strRejectReason : String) :
    CValidationState :=
  state.doS 0 chRejectCode strRejectReason

/-- What a caller records when a callee fails; an exception passes it by. -/
def after (record : CValidationState → CValidationState) (state : CValidationState) :
    CValidationState :=
  if state.thrown then state else record state

/-- An exception. -/
def throwing (state : CValidationState) : CValidationState := { state with thrown := true }

/-- Go on if the rule is kept. -/
def require (kept : Bool) (broken : CValidationState) : Except CValidationState Unit :=
  if kept then .ok () else .error broken

/-- A rule that comes first has to be kept. -/
theorem bind_eq_ok {α : Type} {rule : Except CValidationState Unit}
    {next : Unit → Except CValidationState α} {result : α} :
    rule >>= next = .ok result ↔ rule = .ok () ∧ next () = .ok result := by
  cases rule with
  | error broken => simp [bind, Except.bind]
  | ok => simp [bind, Except.bind]

theorem require_eq_ok {kept : Bool} {broken : CValidationState} {done : Unit} :
    require kept broken = .ok done ↔ kept = true := by
  unfold require
  split <;> simp_all

end CValidationState

open CValidationState

section

variable (node : NodeContext) (block : CBlock)

/-- `CheckProofOfWork`. -/
def checkProofOfWork (hash : Uint256) (nBits : UInt32) : Bool :=
  if node.params.fSkipProofOfWorkCheck then true
  else
    let compact := Uint256.setCompact nBits
    if compact.fNegative || compact.target == 0 || compact.fOverflow ||
        compact.target > node.params.bnProofOfWorkLimit then false
    else !(hash > compact.target)

/-- `CheckBlockHeader`. -/
def checkBlockHeader (state : CValidationState) (fCheckPOW : Bool) :
    Except CValidationState Unit :=
  require (!(fCheckPOW && !checkProofOfWork node block.hash block.nBits))
    (state.doS 50 rejectInvalid "high-hash")

/-- `MAX_BLOCK_SIZE_CURRENT`. -/
def maxBlockSizeCurrent : Nat := 2000000

/-- The header rule, which adds to what `CheckBlockHeader` has found. -/
def checkHeader (state : CValidationState) : Except CValidationState Unit :=
  (checkBlockHeader node block state block.isProofOfWork).mapError fun state =>
    state.doS 100 rejectInvalid "bad-header" true

/-- The timestamp may be three minutes ahead with proof of stake, else two hours. -/
def checkTimestamp (state : CValidationState) : Except CValidationState Unit :=
  require (!(node.params.networkID != .regtest && decide
      (block.nTime > node.adjustedTime + if block.isProofOfStake then 180 else 7200)))
    (state.invalid rejectInvalid "time-too-new")

def checkMerkleRoot (fCheckMerkleRoot : Bool) (state : CValidationState) :
    Except CValidationState Unit :=
  if fCheckMerkleRoot then do
    let (hashMerkleRoot2, mutated) := node.buildMerkleTree block.vtx
    require (block.hashMerkleRoot == hashMerkleRoot2)
      (state.doS 100 rejectInvalid "bad-txnmrklroot" true)
    require (!mutated) (state.doS 100 rejectInvalid "bad-txns-duplicate" true)
  else .ok ()

def checkSizeLimits (state : CValidationState) : Except CValidationState Unit :=
  require (!(block.vtx.isEmpty || decide (block.vtx.length > maxBlockSizeCurrent) ||
      decide (node.getSerializeSize block > maxBlockSizeCurrent)))
    (state.doS 100 rejectInvalid "bad-blk-length")

/-- First transaction must be coinbase, the rest must not be. -/
def checkCoinBases (state : CValidationState) : Except CValidationState Unit := do
  require (block.vtx.head?.any CTransaction.isCoinBase)
    (state.doS 100 rejectInvalid "bad-cb-missing")
  require (block.vtx.tail.all fun tx => !tx.isCoinBase)
    (state.doS 100 rejectInvalid "bad-cb-multiple")

/-- The coinbase of a proof-of-stake block pays nothing, and no third or later
transaction is a coinstake. -/
def checkStakeShape (state : CValidationState) : Except CValidationState Unit :=
  if block.isProofOfStake then do
    require (block.vtx.head?.any fun coinbase =>
      coinbase.vout.length == 1 && coinbase.vout.all CTxOut.isEmpty) (state.doS 100)
    require (block.vtx[1]?.any CTransaction.isCoinStake) (state.doS 100)
    require ((block.vtx.drop 2).all fun tx => !tx.isCoinStake) (state.doS 100)
  else .ok ()

/-- No transaction conflicts with a transaction lock. -/
def checkLocks (state : CValidationState) : Except CValidationState Unit :=
  if node.isSporkActive .swiftTxBlockFiltering then
    require (block.vtx.all fun tx => tx.isCoinBase || tx.vin.all fun txin =>
        (node.mapLockedInputs txin.prevout).all (· == tx.hash))
      (state.doS 0 rejectInvalid "conflicting-tx-ix")
  else .ok ()

/-- `CheckBlock` up to the payee check, and the height at which the check is made,
unless it is skipped. -/
def checkBlockBeforePayee (fCheckMerkleRoot : Bool) (state : CValidationState) :
    Except CValidationState (Option Int) := do
  -- the argument `fCheckPOW` of the source is not used
  checkHeader node block state
  checkTimestamp node block state
  checkMerkleRoot node block fCheckMerkleRoot state
  checkSizeLimits node block state
  checkCoinBases block state
  checkStakeShape block state
  checkLocks node block state
  let nHeight := node.blockHeight block
  return if nHeight ≠ 0 ∧ node.isInitialBlockDownload = false then some nHeight else none

/-- `CheckBlock` up to and including the payee check, or nothing where it reads a
transaction that is not there. -/
def checkBlockPayee (budget : CBudgetManager) (payments : CMasternodePayments)
    (fCheckMerkleRoot : Bool) (state : CValidationState) (budgetState : BudgetState) :
    Option (Except CValidationState BudgetState) :=
  match checkBlockBeforePayee node block fCheckMerkleRoot state with
  | .error broken => some (.error broken)
  | .ok none => some (.ok budgetState)
  | .ok (some nHeight) =>
      (isBlockPayeeValid node budget payments block nHeight budgetState).map fun result =>
        if result.2 then .ok result.1 else .error (state.doS 0 rejectInvalid "bad-cb-payee")

end

/-! ## The transaction the payee check reads -/

section

variable {node : NodeContext} {block : CBlock} {fCheckMerkleRoot : Bool}
  {state : CValidationState} {nHeight : Int}

/-- What is known when the payee check is reached. -/
theorem checkBlockBeforePayee_cases
    (reached : checkBlockBeforePayee node block fCheckMerkleRoot state = .ok (some nHeight)) :
    checkHeader node block state = .ok () ∧ checkTimestamp node block state = .ok () ∧
      checkMerkleRoot node block fCheckMerkleRoot state = .ok () ∧
      checkSizeLimits node block state = .ok () ∧ checkCoinBases block state = .ok () ∧
      checkStakeShape block state = .ok () ∧ checkLocks node block state = .ok () ∧
      nHeight = node.blockHeight block ∧ nHeight ≠ 0 ∧ node.isInitialBlockDownload = false := by
  simp only [checkBlockBeforePayee, bind_eq_ok] at reached
  obtain ⟨header, time, root, size, coinbases, stake, locks, height⟩ := reached
  refine ⟨header, time, root, size, coinbases, stake, locks, ?_⟩
  simp only [pure, Except.pure, Except.ok.injEq] at height
  split at height
  · rename_i checked
    cases height
    exact ⟨rfl, checked⟩
  · cases height

/-- A block that reaches the payee check has a transaction. -/
theorem length_pos_of_reached
    (reached : checkBlockBeforePayee node block fCheckMerkleRoot state = .ok (some nHeight)) :
    0 < block.vtx.length := by
  obtain ⟨-, -, -, size, -⟩ := checkBlockBeforePayee_cases reached
  rw [checkSizeLimits, require_eq_ok] at size
  cases empty : block.vtx with
  | nil => simp [empty] at size
  | cons => simp

/-- **The read of the payee check.** For a block that reaches the payee check, the
transaction that a synced node reads is there if and only if the height is
within the proof-of-work period or the block is more than a coinbase. -/
theorem payeeIndex_lt_iff
    (reached : checkBlockBeforePayee node block fCheckMerkleRoot state = .ok (some nHeight)) :
    (node.isSynced = true → payeeIndex node nHeight < block.vtx.length) ↔
      (node.isSynced = true → nHeight ≤ node.params.nLastPOWBlock ∨ block.vtx.length ≠ 1) := by
  have nonempty := length_pos_of_reached reached
  unfold payeeIndex
  apply imp_congr_right
  intro _
  split <;> omega

end

/-- A coinbase that pays one script. -/
def plainCoinBase (nValue : CAmount) : CTransaction where
  hash := 500
  vin := [{ prevout := COutPoint.null, scriptSig := [1, 2] }]
  vout := [{ nValue, scriptPubKey := [0x51] }]

/-- A block on the tip of `mainNode`. -/
def blockOn (tipHeight : Int) (vtx : List CTransaction) : CBlock where
  hash := 600
  hashPrevBlock := BitVec.ofInt 256 tipHeight
  hashMerkleRoot := (vtx.map CTransaction.hash).sum
  nTime := 1600000000
  nBits := 0x1e0fffff
  vtx

theorem payeeIndex_lt_plainCoinBase :
    payeeIndex (NodeContext.mainNode 50000) 50001 <
      (blockOn 50000 [plainCoinBase 0]).vtx.length := by
  have reached : checkBlockBeforePayee (NodeContext.mainNode 50000)
      (blockOn 50000 [plainCoinBase 0]) true {} = .ok (some 50001) := by
    decide
  exact (payeeIndex_lt_iff reached).mpr (fun _ => Or.inl (by decide)) (by decide)

/-- A lone coinbase on a tip in the proof-of-stake period. -/
theorem not_payeeIndex_lt_loneCoinBase :
    ¬ ∀ (node : NodeContext) (block : CBlock) (fCheckMerkleRoot : Bool)
      (state : CValidationState) (nHeight : Int),
      checkBlockBeforePayee node block fCheckMerkleRoot state = .ok (some nHeight) →
      node.isSynced = true → payeeIndex node nHeight < block.vtx.length := by
  intro safe
  have read := safe (NodeContext.mainNode 80000) (blockOn 80000 [plainCoinBase 0]) true {} 80001
    (by decide) (by decide)
  exact absurd read (by decide)

end GiantCore
