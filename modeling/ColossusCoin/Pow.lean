import ColossusCoin.ChainParams

/-!
# Proof of work

The compact encoding of targets and the test of a block hash against one.
-/

namespace ColossusCoin

/-- The value, the sign and the overflow flag that `uint256::SetCompact` reads off
a compact encoding. -/
def setCompact (nCompact : Nat) : Uint256 × Bool × Bool :=
  let nSize := nCompact >>> 24
  let nWord := nCompact &&& 0x007fffff
  let nWord := if nSize ≤ 3 then nWord >>> (8 * (3 - nSize)) else nWord
  (if nSize ≤ 3 then nWord else nWord <<< (8 * (nSize - 3)) % 2 ^ 256,
    nWord != 0 && nCompact &&& 0x00800000 != 0,
    nWord != 0 &&
      (34 < nSize || (0xff < nWord && 33 < nSize) || (0xffff < nWord && 32 < nSize)))

/-- `uint256::bits`. -/
def bitsOf (number : Uint256) : Nat :=
  if number = 0 then 0 else number.log2 + 1

/-- `uint256::GetCompact` without a sign. -/
def getCompact (number : Uint256) : Nat :=
  let nSize := (bitsOf number + 7) / 8
  let nCompact :=
    if nSize ≤ 3 then (number <<< (8 * (3 - nSize))) % 2 ^ 32
    else (number >>> (8 * (nSize - 3))) % 2 ^ 32
  -- a mantissa with the bit of the sign loses its last byte
  if nCompact &&& 0x00800000 != 0 then (nCompact >>> 8) ||| ((nSize + 1) <<< 24)
  else nCompact ||| (nSize <<< 24)

/-- `GetBlockProof` of an entry with these bits: `2 ** 256 / (bnTarget + 1)`. -/
def getBlockProof (nBits : Nat) : Nat :=
  match setCompact nBits with
  | (bnTarget, fNegative, fOverflow) =>
    if fNegative || fOverflow || bnTarget == 0 then 0
    else (2 ^ 256 - 1 - bnTarget) / (bnTarget + 1) + 1

def checkProofOfWork (params : CChainParams) (hash : Uint256) (nBits : Nat) : Bool :=
  if params.fSkipProofOfWorkCheck then true
  else
    match setCompact nBits with
    | (bnTarget, fNegative, fOverflow) =>
      if fNegative || bnTarget == 0 || fOverflow ||
          params.bnProofOfWorkLimit < bnTarget then false
      else if hash != params.hashGenesisBlock && bnTarget < hash then false
      else true

end ColossusCoin
