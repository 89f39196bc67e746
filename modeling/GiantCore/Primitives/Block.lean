import GiantCore.Primitives.Transaction

/-! # Blocks

The parts of `primitives/block.h` and `chain.h` that validation reads. The
header's hash is a field: it is a digest of the other header fields, and no
modelled function looks inside it.
-/

namespace GiantCore

/-- A block with the header fields that validation reads. -/
structure CBlock where
  hash : Uint256
  hashPrevBlock : Uint256
  hashMerkleRoot : Uint256
  nTime : Int
  nBits : UInt32
  vtx : List CTransaction
  nAccumulatorCheckpoint : Uint256 := 0
  /-- By default `CURRENT_VERSION`. -/
  nVersion : Int := 5
  deriving DecidableEq, Repr

namespace CBlock

/-- The second transaction is a coinstake. -/
def isProofOfStake (block : CBlock) : Bool :=
  match block.vtx with
  | _ :: second :: _ => second.isCoinStake
  | _ => false

def isProofOfWork (block : CBlock) : Bool := !block.isProofOfStake

end CBlock

/-- A target read from its compact form. -/
structure CompactTarget where
  target : Uint256
  fNegative : Bool
  fOverflow : Bool
  deriving DecidableEq, Repr

namespace Uint256

/-- `SetCompact`: a sign bit, a mantissa of 23 bits and a size in bytes. -/
def setCompact (nCompact : UInt32) : CompactTarget :=
  let nSize := nCompact.toNat >>> 24
  let mantissa := nCompact.toNat &&& 0x007fffff
  let nWord := if nSize ≤ 3 then mantissa >>> (8 * (3 - nSize)) else mantissa
  { target :=
      if nSize ≤ 3 then BitVec.ofNat 256 nWord else BitVec.ofNat 256 nWord <<< (8 * (nSize - 3))
    fNegative := nWord != 0 && nCompact.toNat &&& 0x00800000 != 0
    fOverflow := nWord != 0 &&
      (nSize > 34 || (nWord > 0xff && nSize > 33) || (nWord > 0xffff && nSize > 32)) }

/-- `bits`: the number of significant bits. -/
def bits (word : Uint256) : Nat := if word = 0 then 0 else word.toNat.log2 + 1

/-- `GetCompact` of a nonnegative number. -/
def getCompact (word : Uint256) : Nat :=
  let nSize := (word.bits + 7) / 8
  let nCompact :=
    if nSize ≤ 3 then word.toNat <<< (8 * (3 - nSize)) else word.toNat >>> (8 * (nSize - 3))
  if nCompact &&& 0x00800000 ≠ 0 then (nCompact >>> 8) ||| ((nSize + 1) <<< 24)
  else nCompact ||| (nSize <<< 24)

end Uint256

/-- An entry of the block index. -/
structure CBlockIndex where
  hash : Uint256
  nHeight : Int
  deriving DecidableEq, Repr

end GiantCore
