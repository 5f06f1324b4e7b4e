import DigiWage.Primitives

/-!
# Compact targets and block proofs

The compact encoding of targets of `uint256.cpp` and the proof that a target stands for (`GetBlockProof` of `pow.cpp`).
A `uint32_t` is a `Nat` below `2 ^ 32`.
-/

namespace DigiWage

/-- `uint256::SetCompact`: the number, `*pfNegative` and `*pfOverflow`. -/
def setCompact (nCompact : Nat) : Uint256 × Bool × Bool :=
  let nSize := nCompact >>> 24
  let nWord := nCompact &&& 0x007fffff
  let nWord := if nSize ≤ 3 then nWord >>> (8 * (3 - nSize)) else nWord
  let value : Uint256 := if nSize ≤ 3 then BitVec.ofNat 256 nWord else BitVec.ofNat 256 nWord <<< (8 * (nSize - 3))
  (value, decide (nWord ≠ 0) && decide (nCompact &&& 0x00800000 ≠ 0),
    decide (nWord ≠ 0) && (decide (34 < nSize) || (decide (0xff < nWord) && decide (33 < nSize)) ||
      (decide (0xffff < nWord) && decide (32 < nSize))))

/-- `base_uint::bits`: the position of the highest bit set plus one. -/
def bits (v : Uint256) : Nat := if v = 0 then 0 else v.toNat.log2 + 1

/-- `uint256::GetCompact` of a number that is not negative. -/
def getCompact (v : Uint256) : Nat :=
  let nSize := (bits v + 7) / 8
  let nCompact := if nSize ≤ 3 then (v.toNat % 2 ^ 64) <<< (8 * (3 - nSize)) % 2 ^ 32
    else (v >>> (8 * (nSize - 3))).toNat % 2 ^ 32
  if nCompact &&& 0x00800000 ≠ 0 then (nCompact >>> 8) ||| ((nSize + 1) <<< 24) else nCompact ||| (nSize <<< 24)

/-- `GetBlockProof`: `2 ^ 256 / (target + 1)`, and zero for a target that is no target. -/
def getBlockProof (nBits : Nat) : Uint256 :=
  let (bnTarget, fNegative, fOverflow) := setCompact nBits
  if fNegative || fOverflow || bnTarget == 0 then 0 else (~~~bnTarget / (bnTarget + 1)) + 1

end DigiWage
