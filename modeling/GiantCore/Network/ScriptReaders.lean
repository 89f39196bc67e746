import GiantCore.Network.BloomFilter
import GiantCore.Script.Standard
import GiantCore.Zerocoin.Coins

/-! # Reading zerocoin scripts

A script is a zerocoin mint or spend by its first byte alone. Four functions read what is behind
it from a fixed place on: `TxOutToPublicCoin`, `TxInToZerocoinSpend`, `Solver`, and
`CBloomFilter::IsRelevantAndUpdate` with two places. Here they are with the iterators that they
form, which are past the end of scripts that are too short.
-/

namespace GiantCore

/-- Why a reader does not return. -/
inductive ReadFault where
  /-- An iterator past the end of the script. -/
  | pastEnd
  /-- A filter without bits. -/
  | moduloZero
  /-- An exception of the stream that the serial is read from. -/
  | badStream
  deriving DecidableEq, Repr

/-- What is behind `begin() + n`. -/
def CScript.beginAt (script : CScript) (n : Nat) : Except ReadFault CScript :=
  if n ≤ script.length then .ok (script.drop n) else .error .pastEnd

theorem CScript.beginAt_of_le {script : CScript} {n : Nat} (long : n ≤ script.length) :
    script.beginAt n = .ok (script.drop n) := if_pos long

theorem CScript.beginAt_of_lt {script : CScript} {n : Nat} (short : script.length < n) :
    script.beginAt n = .error .pastEnd := if_neg (Nat.not_le.mpr short)

/-! ## Three readers -/

/-- `TxOutToPublicCoin`. -/
def readPublicCoin (txout : CTxOut) : Except ReadFault (Option PublicCoin) := do
  let vchZeroMint ← CScript.beginAt txout.scriptPubKey scriptOffset
  let denomination := CoinDenomination.ofAmount txout.nValue
  return if denomination = .error then none
    else some { value := CBigNum.setvch vchZeroMint, denomination }

/-- `TxInToZerocoinSpend`. -/
def readZerocoinSpend (lib : Libzerocoin) (accumulatorV1 : Bool) (txin : CTxIn) :
    Except ReadFault (Option Libzerocoin.CoinSpend) := do
  let dataTxIn ← CScript.beginAt txin.scriptSig bignumSize
  return (lib.deserializeSpend dataTxIn).map fun data => { data with accumulatorV1 }

/-- `Solver`. Only the bytes of a mint are read without a check of the length. -/
def readSolutions (scriptPubKey : CScript) :
    Except ReadFault (Option (TxnOutType × List Valtype)) :=
  if scriptPubKey.isPayToScriptHash = false ∧ CScript.isZerocoinMint scriptPubKey ∧
      scriptPubKey.length ≤ 150 then do
    let hashBytes ← scriptPubKey.beginAt 2
    return some (.zerocoinMint, [hashBytes])
  else .ok (CScript.solver scriptPubKey)

theorem readPublicCoin_of_le {txout : CTxOut} (long : scriptOffset ≤ txout.scriptPubKey.length) :
    readPublicCoin txout = .ok (txOutToPublicCoin txout) := by
  unfold readPublicCoin txOutToPublicCoin
  rw [CScript.beginAt_of_le long]
  simp only [Nat.not_lt.mpr long, false_or]
  rfl

theorem readZerocoinSpend_of_le {lib : Libzerocoin} {accumulatorV1 : Bool} {txin : CTxIn}
    (long : bignumSize ≤ txin.scriptSig.length) :
    readZerocoinSpend lib accumulatorV1 txin =
      .ok (txInToZerocoinSpend lib accumulatorV1 txin) := by
  unfold readZerocoinSpend txInToZerocoinSpend
  rw [CScript.beginAt_of_le long]
  rfl

theorem readSolutions_of_le {script : CScript} (long : 2 ≤ script.length) :
    readSolutions script = .ok (CScript.solver script) := by
  unfold readSolutions
  split
  · rename_i mint
    rw [CScript.beginAt_of_le long, CScript.solver, if_neg (by simp [mint.1]), if_pos mint.2.1,
      if_neg (Nat.not_lt.mpr mint.2.2)]
    rfl
  · rfl

/-! ## The filter -/

/-- The bytes of an outpoint. -/
def COutPoint.bytes (out : COutPoint) : List UInt8 :=
  (List.range 32).map (fun i => UInt8.ofNat (out.hash.toNat / 256 ^ i)) ++
    (List.range 4).map fun i => UInt8.ofNat (out.n.toNat / 256 ^ i)

namespace CBloomFilter

/-- `contains`, with its fault. -/
def look (filter : CBloomFilter) (vKey : List UInt8) : Except ReadFault Bool :=
  match filter.contains vKey with
  | none => .error .moduloZero
  | some found => .ok found

/-- `insert`, with its fault. -/
def put (filter : CBloomFilter) (vKey : List UInt8) : Except ReadFault CBloomFilter :=
  match filter.insert vKey with
  | none => .error .moduloZero
  | some after => .ok after

/-- The data of the instructions are looked for, or what is read in their place. -/
def matchData (filter : CBloomFilter) (read : Valtype → Except ReadFault Valtype) :
    List CScript.Instruction → Except ReadFault Bool
  | .op _ data _ :: rest =>
      match read data with
      | .error fault => .error fault
      | .ok data =>
          if data.isEmpty then matchData filter read rest
          else match filter.look data with
            | .error fault => .error fault
            | .ok true => .ok true
            | .ok false => matchData filter read rest
  | _ => .ok false

/-- The data of an output. -/
def readOutput (txout : CTxOut) (data : Valtype) : Except ReadFault Valtype :=
  if txout.isZerocoinMint then CScript.beginAt txout.scriptPubKey 6 else .ok data

/-- The data of an input. -/
def readInput (parseSerial : List UInt8 → Option Valtype) (txin : CTxIn) (data : Valtype) :
    Except ReadFault Valtype :=
  if txin.isZerocoinSpend then do
    let bytes ← CScript.beginAt txin.scriptSig 44
    match parseSerial bytes with
    | none => throw .badStream
    | some serial => return serial
  else .ok data

/-- What is inserted for an output that matches. -/
def update (filter : CBloomFilter) (out : COutPoint) (txout : CTxOut) :
    Except ReadFault CBloomFilter :=
  if filter.nFlags &&& 3 = 1 then filter.put out.bytes
  else if filter.nFlags &&& 3 = 2 then
    match readSolutions txout.scriptPubKey with
    | .error fault => .error fault
    | .ok (some (.pubkey, _)) | .ok (some (.multisig, _)) => filter.put out.bytes
    | .ok _ => .ok filter
  else .ok filter

/-- The loop over the outputs. -/
def scanOutputs (hash : Uint256) (filter : CBloomFilter) :
    Nat → List CTxOut → Except ReadFault (Bool × CBloomFilter)
  | _, [] => .ok (false, filter)
  | i, txout :: rest =>
      match filter.matchData (readOutput txout) (CScript.instructions txout.scriptPubKey) with
      | .error fault => .error fault
      | .ok false => scanOutputs hash filter (i + 1) rest
      | .ok true =>
          match filter.update ⟨hash, UInt32.ofNat i⟩ txout with
          | .error fault => .error fault
          | .ok after =>
              match scanOutputs hash after (i + 1) rest with
              | .error fault => .error fault
              | .ok (_, last) => .ok (true, last)

/-- The loop over the inputs. -/
def scanInputs (parseSerial : List UInt8 → Option Valtype) (filter : CBloomFilter) :
    List CTxIn → Except ReadFault Bool
  | [] => .ok false
  | txin :: rest =>
      match filter.look txin.prevout.bytes with
      | .error fault => .error fault
      | .ok true => .ok true
      | .ok false =>
          match filter.matchData (readInput parseSerial txin)
              (CScript.instructions txin.scriptSig) with
          | .error fault => .error fault
          | .ok true => .ok true
          | .ok false => scanInputs parseSerial filter rest

/-- `IsRelevantAndUpdate`. -/
def isRelevantAndUpdate (parseSerial : List UInt8 → Option Valtype) (filter : CBloomFilter)
    (tx : CTransaction) : Except ReadFault (Bool × CBloomFilter) :=
  if filter.isFull then .ok (true, filter)
  else if filter.isEmpty then .ok (false, filter)
  else do
    let known ← filter.look ((List.range 32).map fun i => UInt8.ofNat (tx.hash.toNat / 256 ^ i))
    let (found, filter) ← scanOutputs tx.hash filter 0 tx.vout
    if known || found then return (true, filter)
    let spent ← scanInputs parseSerial filter tx.vin
    return (spent, filter)

variable {filter : CBloomFilter} {read : Valtype → Except ReadFault Valtype}
  {parseSerial : List UInt8 → Option Valtype}

/-- The fault of a step that stays in range is another one. -/
theorem fault_ne_pastEnd {α β : Type} {step : Except ReadFault α} {fault : ReadFault}
    (inRange : step ≠ .error .pastEnd) (fails : step = .error fault) :
    (.error fault : Except ReadFault β) ≠ .error .pastEnd := by
  intro same
  cases same
  exact inRange fails

theorem look_ne_pastEnd (vKey : List UInt8) : filter.look vKey ≠ .error .pastEnd := by
  unfold look
  cases filter.contains vKey <;> exact nofun

theorem put_ne_pastEnd (vKey : List UInt8) : filter.put vKey ≠ .error .pastEnd := by
  unfold put
  cases filter.insert vKey <;> exact nofun

/-- Nothing is read past the end where no data is. -/
theorem matchData_ne_pastEnd (reads : ∀ data, read data ≠ .error .pastEnd)
    (instructions : List CScript.Instruction) :
    filter.matchData read instructions ≠ .error .pastEnd := by
  induction instructions with
  | nil => exact nofun
  | cons instruction rest ih =>
      cases instruction with
      | unreadable => exact nofun
      | op opcode data behind =>
          rw [matchData]
          cases got : read data with
          | error fault => exact fault_ne_pastEnd (reads data) got
          | ok data =>
              dsimp only
              split
              · exact ih
              · cases found : filter.look data with
                | error fault => exact fault_ne_pastEnd (look_ne_pastEnd data) found
                | ok hit =>
                    cases hit with
                    | true => exact nofun
                    | false => exact ih

/-- The first instruction of a script that begins with a zerocoin opcode. -/
theorem instructions_of_opcode {opcode : UInt8} {rest : CScript}
    (high : ¬ opcode ≤ Opcode.opPushData4) :
    CScript.instructions (opcode :: rest) = .op opcode [] rest :: CScript.instructions rest := by
  have next : CScript.getOp (opcode :: rest) = some (opcode, [], rest) := by
    rw [CScript.getOp, if_neg high]
  rw [CScript.instructions, if_neg (by simp)]
  split
  · rename_i none
    rw [next] at none
    cases none
  · rename_i found
    rw [next] at found
    cases found
    rfl

/-- Where the data of a zerocoin script cannot be read, that is the result. -/
theorem matchData_of_fault {script : CScript} {opcode : UInt8} {fault : ReadFault}
    (starts : script.startsWithOpcode opcode = true) (high : ¬ opcode ≤ Opcode.opPushData4)
    (fails : read [] = .error fault) :
    filter.matchData read (CScript.instructions script) = .error fault := by
  cases script with
  | nil => cases starts
  | cons first rest =>
      have same : first = opcode := Option.some.inj (eq_of_beq starts)
      rw [same, instructions_of_opcode high, matchData, fails]

/-- A filter that contains nothing finds nothing in data that can be read. -/
theorem matchData_eq_false (nothing : ∀ vKey, filter.look vKey = .ok false)
    (reads : ∀ data, ∃ got, read data = .ok got) (instructions : List CScript.Instruction) :
    filter.matchData read instructions = .ok false := by
  induction instructions with
  | nil => rfl
  | cons instruction rest ih =>
      cases instruction with
      | unreadable => rfl
      | op opcode data behind =>
          obtain ⟨got, here⟩ := reads data
          rw [matchData, here]
          dsimp only
          rw [nothing got, ih, ite_self]

/-- A short mint, or a short script in its place. -/
theorem exists_readOutput {txout : CTxOut}
    (long : txout.isZerocoinMint = true → 6 ≤ txout.scriptPubKey.length) (data : Valtype) :
    ∃ got, readOutput txout data = .ok got := by
  unfold readOutput
  split
  · rename_i mint
    exact ⟨_, CScript.beginAt_of_le (long mint)⟩
  · exact ⟨data, rfl⟩

theorem update_ne_pastEnd {out : COutPoint} {txout : CTxOut}
    (long : txout.isZerocoinMint = true → 6 ≤ txout.scriptPubKey.length) :
    filter.update out txout ≠ .error .pastEnd := by
  have solved : ∃ solutions, readSolutions txout.scriptPubKey = .ok solutions := by
    by_cases mint : txout.isZerocoinMint = true
    · exact ⟨_, readSolutions_of_le (le_trans (by omega) (long mint))⟩
    · refine ⟨_, if_neg ?_⟩
      rintro ⟨-, isMint, -⟩
      exact mint isMint
  obtain ⟨solutions, solved⟩ := solved
  unfold update
  split
  · exact put_ne_pastEnd _
  · split
    · rw [solved]
      split
      · rename_i same
        cases same
      · exact put_ne_pastEnd _
      · exact put_ne_pastEnd _
      · exact nofun
    · exact nofun

/-- **The outputs** are read in range if their mints are long enough. -/
theorem scanOutputs_ne_pastEnd (hash : Uint256) (i : Nat) {vout : List CTxOut}
    (long : ∀ txout ∈ vout, txout.isZerocoinMint = true → 6 ≤ txout.scriptPubKey.length) :
    scanOutputs hash filter i vout ≠ .error .pastEnd := by
  induction vout generalizing filter i with
  | nil => exact nofun
  | cons txout rest ih =>
      rw [List.forall_mem_cons] at long
      have reads : ∀ data, readOutput txout data ≠ .error .pastEnd := by
        intro data same
        obtain ⟨got, here⟩ := exists_readOutput long.1 data
        rw [here] at same
        cases same
      have scans : filter.matchData (readOutput txout) (CScript.instructions txout.scriptPubKey) ≠
          .error .pastEnd := matchData_ne_pastEnd reads _
      rw [scanOutputs]
      cases found : filter.matchData (readOutput txout)
          (CScript.instructions txout.scriptPubKey) with
      | error fault => exact fault_ne_pastEnd scans found
      | ok hit =>
          cases hit with
          | false => exact ih (i + 1) long.2
          | true =>
              dsimp only
              have updates : filter.update ⟨hash, UInt32.ofNat i⟩ txout ≠ .error .pastEnd :=
                update_ne_pastEnd long.1
              cases after : filter.update ⟨hash, UInt32.ofNat i⟩ txout with
              | error fault => exact fault_ne_pastEnd updates after
              | ok next =>
                  dsimp only
                  have later : scanOutputs hash next (i + 1) rest ≠ .error .pastEnd :=
                    ih (i + 1) long.2
                  cases last : scanOutputs hash next (i + 1) rest with
                  | error fault => exact fault_ne_pastEnd later last
                  | ok result => exact nofun

/-- Up to the first serial that cannot be parsed, the zerocoin spends have 44 bytes. -/
def SpendsHold (parseSerial : List UInt8 → Option Valtype) : List CTxIn → Prop
  | [] => True
  | txin :: rest =>
      if txin.isZerocoinSpend then
        44 ≤ txin.scriptSig.length ∧
          (parseSerial (txin.scriptSig.drop 44) = none ∨ SpendsHold parseSerial rest)
      else SpendsHold parseSerial rest

theorem not_le_opZerocoinSpend : ¬ CScript.opZerocoinSpend ≤ Opcode.opPushData4 := by decide

/-- **The inputs** are read in range if the spends are long enough. -/
theorem scanInputs_ne_pastEnd {vin : List CTxIn} (holds : SpendsHold parseSerial vin) :
    scanInputs parseSerial filter vin ≠ .error .pastEnd := by
  induction vin with
  | nil => exact nofun
  | cons txin rest ih =>
      rw [SpendsHold] at holds
      rw [scanInputs]
      cases known : filter.look txin.prevout.bytes with
      | error fault => exact fault_ne_pastEnd (look_ne_pastEnd _) known
      | ok hit =>
          cases hit with
          | true => exact nofun
          | false =>
              dsimp only
              by_cases spend : txin.isZerocoinSpend = true
              · rw [if_pos spend] at holds
                obtain ⟨long, behind⟩ := holds
                rcases behind with unparsed | later
                · -- the stream throws, and the inputs behind are not read
                  have fails : readInput parseSerial txin [] = .error .badStream := by
                    rw [readInput, if_pos spend, CScript.beginAt_of_le long]
                    simp only [bind, Except.bind]
                    rw [unparsed]
                    rfl
                  have starts : CScript.startsWithOpcode txin.scriptSig CScript.opZerocoinSpend =
                      true := (Bool.and_eq_true_iff.mp spend).2
                  rw [matchData_of_fault starts not_le_opZerocoinSpend fails]
                  exact nofun
                · have reads : ∀ data, readInput parseSerial txin data ≠ .error .pastEnd := by
                    intro data
                    rw [readInput, if_pos spend, CScript.beginAt_of_le long]
                    simp only [bind, Except.bind]
                    cases parseSerial (txin.scriptSig.drop 44) <;> exact nofun
                  have scans : filter.matchData (readInput parseSerial txin)
                      (CScript.instructions txin.scriptSig) ≠ .error .pastEnd :=
                    matchData_ne_pastEnd reads _
                  cases found : filter.matchData (readInput parseSerial txin)
                      (CScript.instructions txin.scriptSig) with
                  | error fault => exact fault_ne_pastEnd scans found
                  | ok hit =>
                      cases hit with
                      | true => exact nofun
                      | false => exact ih later
              · rw [if_neg spend] at holds
                have reads : ∀ data, readInput parseSerial txin data ≠ .error .pastEnd := by
                  intro data
                  rw [readInput, if_neg spend]
                  exact nofun
                have scans : filter.matchData (readInput parseSerial txin)
                    (CScript.instructions txin.scriptSig) ≠ .error .pastEnd :=
                  matchData_ne_pastEnd reads _
                cases found : filter.matchData (readInput parseSerial txin)
                    (CScript.instructions txin.scriptSig) with
                | error fault => exact fault_ne_pastEnd scans found
                | ok hit =>
                    cases hit with
                    | true => exact nofun
                    | false => exact ih holds

/-- **A filter reads a transaction in range** if its zerocoin scripts are long enough. -/
theorem isRelevantAndUpdate_ne_pastEnd {tx : CTransaction}
    (long : ∀ txout ∈ tx.vout, txout.isZerocoinMint = true → 6 ≤ txout.scriptPubKey.length)
    (holds : SpendsHold parseSerial tx.vin) :
    filter.isRelevantAndUpdate parseSerial tx ≠ .error .pastEnd := by
  unfold isRelevantAndUpdate
  split
  · exact nofun
  · split
    · exact nofun
    · cases known : filter.look
          ((List.range 32).map fun i => UInt8.ofNat (tx.hash.toNat / 256 ^ i)) with
      | error fault => exact fault_ne_pastEnd (look_ne_pastEnd _) known
      | ok hit =>
          simp only [bind, Except.bind]
          have outputs : scanOutputs tx.hash filter 0 tx.vout ≠ .error .pastEnd :=
            scanOutputs_ne_pastEnd tx.hash 0 long
          cases scanned : scanOutputs tx.hash filter 0 tx.vout with
          | error fault => exact fault_ne_pastEnd outputs scanned
          | ok result =>
              dsimp only
              split
              · exact nofun
              · have inputs : scanInputs parseSerial result.2 tx.vin ≠ .error .pastEnd :=
                  scanInputs_ne_pastEnd holds
                cases last : scanInputs parseSerial result.2 tx.vin with
                | error fault => exact fault_ne_pastEnd inputs last
                | ok spent => exact nofun

/-! ## A filter that contains nothing -/

/-- A filter of one byte without a bit, and without the flag for it. -/
def blank : CBloomFilter :=
  { vData := [0], isFull := false, isEmpty := false, nHashFuncs := 1, nTweak := 0, nFlags := 0 }

theorem look_eq_false (partly : filter.isFull = false) (bits : filter.vData ≠ [])
    (zero : allZero filter.vData = true) (hashes : 0 < filter.nHashFuncs) (vKey : List UInt8) :
    filter.look vKey = .ok false := by
  have looked := contains_isSome (Or.inr (Or.inr (Or.inr bits))) vKey
  have absent : filter.contains vKey ≠ some true := by
    rw [ne_eq, contains_eq_true_iff]
    rintro (full | ⟨-, has⟩)
    · exact Bool.false_ne_true (partly.symm.trans full)
    · obtain ⟨nIndex, -, set⟩ := has 0 hashes
      rw [hasBit_of_allZero zero] at set
      exact Bool.false_ne_true set
  unfold look
  generalize filter.contains vKey = found at looked absent ⊢
  cases found with
  | none => exact absurd looked Bool.false_ne_true
  | some hit =>
      cases hit with
      | true => exact absurd rfl absent
      | false => rfl

theorem look_blank (vKey : List UInt8) : blank.look vKey = .ok false :=
  look_eq_false rfl (List.cons_ne_nil 0 []) rfl Nat.zero_lt_one vKey

theorem scanOutputs_blank (hash : Uint256) (i : Nat) {vout : List CTxOut}
    (long : ∀ txout ∈ vout, txout.isZerocoinMint = true → 6 ≤ txout.scriptPubKey.length) :
    scanOutputs hash blank i vout = .ok (false, blank) := by
  induction vout generalizing i with
  | nil => rfl
  | cons txout rest ih =>
      rw [List.forall_mem_cons] at long
      rw [scanOutputs, matchData_eq_false look_blank (exists_readOutput long.1)]
      exact ih (i + 1) long.2

/-- The filter comes to the first spend that is too short. -/
theorem spendsHold_of_blank {vin : List CTxIn}
    (inRange : scanInputs parseSerial blank vin ≠ .error .pastEnd) :
    SpendsHold parseSerial vin := by
  induction vin with
  | nil => trivial
  | cons txin rest ih =>
      rw [scanInputs, look_blank] at inRange
      dsimp only at inRange
      rw [SpendsHold]
      split
      · rename_i spend
        have starts : CScript.startsWithOpcode txin.scriptSig CScript.opZerocoinSpend = true :=
          (Bool.and_eq_true_iff.mp spend).2
        have long : 44 ≤ txin.scriptSig.length := by
          by_contra short
          have fails : readInput parseSerial txin [] = .error .pastEnd := by
            rw [readInput, if_pos spend, CScript.beginAt_of_lt (Nat.not_le.mp short)]
            rfl
          rw [matchData_of_fault starts not_le_opZerocoinSpend fails] at inRange
          exact inRange rfl
        refine ⟨long, ?_⟩
        cases parsed : parseSerial (txin.scriptSig.drop 44) with
        | none => exact Or.inl rfl
        | some serial =>
            have reads : ∀ data, ∃ got, readInput parseSerial txin data = .ok got := by
              intro data
              rw [readInput, if_pos spend, CScript.beginAt_of_le long]
              simp only [bind, Except.bind]
              rw [parsed]
              exact ⟨serial, rfl⟩
            rw [matchData_eq_false look_blank reads] at inRange
            exact Or.inr (ih inRange)
      · rename_i ordinary
        have reads : ∀ data, ∃ got, readInput parseSerial txin data = .ok got :=
          fun data => ⟨data, by rw [readInput, if_neg ordinary]⟩
        rw [matchData_eq_false look_blank reads] at inRange
        exact ih inRange

end CBloomFilter

/-! ## A transaction -/

/-- **The zerocoin scripts of a transaction are read in range**, by every reader and for every
filter. -/
structure ReadsInRange (lib : Libzerocoin) (parseSerial : List UInt8 → Option Valtype)
    (tx : CTransaction) : Prop where
  publicCoin : ∀ txout ∈ tx.vout, txout.isZerocoinMint = true →
    readPublicCoin txout ≠ .error .pastEnd
  spend : ∀ accumulatorV1, ∀ txin ∈ tx.vin, CScript.isZerocoinSpend txin.scriptSig = true →
    readZerocoinSpend lib accumulatorV1 txin ≠ .error .pastEnd
  solutions : ∀ txout ∈ tx.vout, txout.isZerocoinMint = true →
    readSolutions txout.scriptPubKey ≠ .error .pastEnd
  filter : ∀ filter : CBloomFilter,
    filter.isRelevantAndUpdate parseSerial tx ≠ .error .pastEnd

open CBloomFilter in
/-- **When the scripts are read in range.** Exactly if the scripts of all mints have six bytes,
those of all spends have four, and those of the zerocoin inputs have 44 up to the first serial that
cannot be parsed. -/
theorem readsInRange_iff (lib : Libzerocoin) (parseSerial : List UInt8 → Option Valtype)
    (tx : CTransaction) :
    ReadsInRange lib parseSerial tx ↔
      (∀ txout ∈ tx.vout, txout.isZerocoinMint = true → 6 ≤ txout.scriptPubKey.length) ∧
      (∀ txin ∈ tx.vin, CScript.isZerocoinSpend txin.scriptSig = true →
        4 ≤ txin.scriptSig.length) ∧
      SpendsHold parseSerial tx.vin := by
  constructor
  · intro inRange
    have mints : ∀ txout ∈ tx.vout, txout.isZerocoinMint = true →
        6 ≤ txout.scriptPubKey.length := by
      intro txout member mint
      by_contra short
      apply inRange.publicCoin txout member mint
      rw [readPublicCoin, scriptOffset, CScript.beginAt_of_lt (Nat.not_le.mp short)]
      rfl
    refine ⟨mints, ?_, spendsHold_of_blank fun outside => inRange.filter blank ?_⟩
    · intro txin member spend
      by_contra short
      apply inRange.spend false txin member spend
      rw [readZerocoinSpend, bignumSize, CScript.beginAt_of_lt (Nat.not_le.mp short)]
      rfl
    · rw [isRelevantAndUpdate, if_neg (by decide), if_neg (by decide), look_blank]
      simp only [bind, Except.bind]
      rw [scanOutputs_blank tx.hash 0 mints]
      dsimp only
      rw [Bool.or_false, if_neg Bool.false_ne_true, outside]
  · rintro ⟨mints, spends, holds⟩
    refine ⟨?_, ?_, ?_, ?_⟩
    · intro txout member mint
      rw [readPublicCoin_of_le (mints txout member mint)]
      exact nofun
    · intro accumulatorV1 txin member spend
      rw [readZerocoinSpend_of_le (spends txin member spend)]
      exact nofun
    · intro txout member mint
      rw [readSolutions_of_le (le_trans (by omega) (mints txout member mint))]
      exact nofun
    · exact fun filter => isRelevantAndUpdate_ne_pastEnd mints holds

/-- A transaction whose only output has a script of one byte. -/
def shortMint : CTransaction where
  hash := 1
  vin := [{ prevout := ⟨2, 0⟩ }]
  vout := [⟨COIN, [CScript.opZerocoinMint], -10⟩]

/-- Every reader forms an iterator past the end. -/
theorem not_readsInRange_shortMint :
    readPublicCoin ⟨COIN, [CScript.opZerocoinMint], -10⟩ = .error .pastEnd ∧
    readSolutions [CScript.opZerocoinMint] = .error .pastEnd ∧
    CBloomFilter.blank.isRelevantAndUpdate (fun _ => none) shortMint = .error .pastEnd ∧
    ¬ ReadsInRange Libzerocoin.plain (fun _ => none) shortMint := by
  refine ⟨by decide +kernel, by decide +kernel, by decide +kernel, fun inRange => ?_⟩
  apply inRange.publicCoin ⟨COIN, [CScript.opZerocoinMint], -10⟩ List.mem_cons_self rfl
  decide +kernel

end GiantCore
