import DigiWage.Chain.Pow
import Mathlib.Tactic.Ring

/-!
# The required target of the main network

`GetNextWorkRequired` past the last proof-of-work block, with the parameters of the main network, against the same
computation over unbounded integers.

* `retarget_eq`: when no multiplication wraps the code computes the target of the unbounded integers, and replaces the
  target zero by the limit.
* `noWrap_of_timeV2`: with the time protocol V2 none wraps, because the spacing is cut to ten times the target spacing.
* `noWrap_iff_of_timeV1`: with the time protocol V1 the spacing is not cut above, and what matters is its product with
  the target; up to 97 days nothing wraps (`noWrap_of_spacing_le`).
-/

namespace DigiWage

/-- `CMainParams`. -/
def mainNetParams : ConsensusParams where
  isRegTestNet := false
  powLimit := BitVec.allOnes 256 >>> 20
  posLimitV1 := BitVec.allOnes 256 >>> 24
  posLimitV2 := BitVec.allOnes 256 >>> 20
  nTargetTimespan := 40 * 60
  nTargetTimespanV2 := 30 * 60
  nTargetSpacing := 1 * 60
  nFutureTimeDriftPoW := 7200
  nFutureTimeDriftPoS := 180
  nTimeSlotLength := 15
  nStakeMinAge := 60 * 60
  nStakeMinDepth := 600
  heightLastPoW := 1000
  heightStartStakeModifierV2 := 1551945
  heightStartTimeProtoV2 := 1552000
  heightStartZC := 1551955
  heightRHF := 1552000
  spacing_pos := sixty_pos

/-! ## Over unbounded integers -/

section

variable (params : ConsensusParams) (pindexLast pprev : CBlockIndex)

/-- The time protocol of the next block. -/
def nextTimeV2 : Bool := params.isTimeProtocolV2 (pindexLast.nHeight + 1)

/-- The spacing of the last block, clamped: one second when it is negative, and ten times the target spacing at most with
the time protocol V2. -/
def clampedSpacing : Nat :=
  let nActualSpacing : Int := (pindexLast.nTime : Int) - pprev.nTime
  let nActualSpacing := if nActualSpacing < 0 then 1 else nActualSpacing.toNat
  if nextTimeV2 params pindexLast then min nActualSpacing (params.nTargetSpacing * 10) else nActualSpacing

/-- The target of the last block, times 16 on the first block of the time protocol V2. -/
def lastTarget : Nat :=
  (setCompact pindexLast.nBits).1.toNat *
    if nextTimeV2 params pindexLast && !params.isTimeProtocolV2 pindexLast.nHeight then 16 else 1

/-- `(I - 1) * S + 2 * d`. -/
def retargetFactor : Nat :=
  (params.targetTimespan (nextTimeV2 params pindexLast) / params.nTargetSpacing - 1) * params.nTargetSpacing +
    2 * clampedSpacing params pindexLast pprev

/-- `floor(T * ((I - 1) * S + 2 * d) / ((I + 1) * S))`. -/
def retarget : Nat :=
  lastTarget params pindexLast * retargetFactor params pindexLast pprev /
    ((params.targetTimespan (nextTimeV2 params pindexLast) / params.nTargetSpacing + 1) * params.nTargetSpacing)

/-- No multiplication wraps at 32 or at 256 bits. -/
structure NoWrap : Prop where
  shift : (setCompact pindexLast.nBits).1.toNat * 16 < 2 ^ 256 ∨
    (nextTimeV2 params pindexLast && !params.isTimeProtocolV2 pindexLast.nHeight) = false
  factor : retargetFactor params pindexLast pprev < 2 ^ 32
  product : lastTarget params pindexLast * retargetFactor params pindexLast pprev < 2 ^ 256

end

/-! ## The code computes it -/

theorem toNat_mulUint32 {v : Uint256} {k : Nat} (hk : k < 2 ^ 32) (h : v.toNat * k < 2 ^ 256) :
    (mulUint32 v k).toNat = v.toNat * k := by
  have hcut : ((k : Int) % 2 ^ 32).toNat = k := by omega
  rw [mulUint32, hcut, BitVec.toNat_mul, BitVec.toNat_ofNat, Nat.mod_eq_of_lt (by omega : k < 2 ^ 256),
    Nat.mod_eq_of_lt h]

theorem toNat_shiftLeft_four {v : Uint256} (h : v.toNat * 16 < 2 ^ 256) : (v <<< 4).toNat = v.toNat * 16 := by
  rw [BitVec.toNat_shiftLeft, Nat.shiftLeft_eq, Nat.mod_eq_of_lt h]

variable {params : ConsensusParams} {pindexLast pprev : CBlockIndex}

theorem clampedSpacing_eq :
    (clampedSpacing params pindexLast pprev : Int) =
      let nActualSpacing : Int := (pindexLast.nTime : Int) - pprev.nTime
      let nActualSpacing : Int := if nActualSpacing < 0 then 1 else nActualSpacing
      let nActualSpacing : Int := if nextTimeV2 params pindexLast &&
        decide (params.nTargetSpacing * 10 < nActualSpacing) then params.nTargetSpacing * 10 else nActualSpacing
      nActualSpacing := by
  unfold clampedSpacing
  cases nextTimeV2 params pindexLast with
  | false =>
    dsimp only
    simp only [Bool.false_and, Bool.false_eq_true, if_false]
    split <;> omega
  | true =>
    dsimp only
    simp only [Bool.true_and, decide_eq_true_eq, if_true]
    split <;> split <;> omega

theorem retargetFactor_eq
    (hinterval : 1 ≤ params.targetTimespan (nextTimeV2 params pindexLast) / params.nTargetSpacing) :
    (retargetFactor params pindexLast pprev : Int) =
      ((params.targetTimespan (nextTimeV2 params pindexLast) / params.nTargetSpacing : Nat) - 1 : Int) *
          params.nTargetSpacing + clampedSpacing params pindexLast pprev + clampedSpacing params pindexLast pprev := by
  unfold retargetFactor
  rw [Nat.cast_add, Nat.cast_mul, Nat.cast_sub hinterval]
  push_cast
  ring

section

variable (params pindexLast pprev)

/-- `bnNew` after the shift. -/
def shiftedTarget : Uint256 :=
  if nextTimeV2 params pindexLast && !params.isTimeProtocolV2 pindexLast.nHeight
  then (setCompact pindexLast.nBits).1 <<< 4 else (setCompact pindexLast.nBits).1

/-- `bnNew` after the multiplication and the division. -/
def scaledTarget : Uint256 :=
  mulUint32 (shiftedTarget params pindexLast) (retargetFactor params pindexLast pprev) /
    BitVec.ofNat 256 ((params.targetTimespan (nextTimeV2 params pindexLast) / params.nTargetSpacing + 1) *
      params.nTargetSpacing)

end

theorem nextTargetPoS_eq
    (hinterval : 1 ≤ params.targetTimespan (nextTimeV2 params pindexLast) / params.nTargetSpacing) :
    nextTargetPoS params pindexLast pprev = getCompact
      (if scaledTarget params pindexLast pprev = 0 ∨
          params.proofOfStakeLimit (nextTimeV2 params pindexLast) < scaledTarget params pindexLast pprev
        then params.proofOfStakeLimit (nextTimeV2 params pindexLast) else scaledTarget params pindexLast pprev) := by
  unfold scaledTarget
  rw [retargetFactor_eq hinterval, clampedSpacing_eq]
  rfl

theorem NoWrap.toNat_shiftedTarget (h : NoWrap params pindexLast pprev) :
    (shiftedTarget params pindexLast).toNat = lastTarget params pindexLast := by
  unfold shiftedTarget lastTarget
  split
  · next hfirst =>
    have hshift := h.shift.resolve_right (by rw [hfirst]; decide)
    exact toNat_shiftLeft_four hshift
  · rw [Nat.mul_one]

theorem NoWrap.toNat_scaledTarget (h : NoWrap params pindexLast pprev)
    (hdiv : (params.targetTimespan (nextTimeV2 params pindexLast) / params.nTargetSpacing + 1) *
      params.nTargetSpacing < 2 ^ 256) :
    (scaledTarget params pindexLast pprev).toNat = retarget params pindexLast pprev := by
  have hproduct := h.product
  rw [← h.toNat_shiftedTarget] at hproduct
  unfold scaledTarget retarget
  rw [BitVec.toNat_udiv, toNat_mulUint32 h.factor hproduct, h.toNat_shiftedTarget, BitVec.toNat_ofNat,
    Nat.mod_eq_of_lt hdiv]

theorem retarget_eq (h : NoWrap params pindexLast pprev)
    (hinterval : 1 ≤ params.targetTimespan (nextTimeV2 params pindexLast) / params.nTargetSpacing)
    (hdiv : (params.targetTimespan (nextTimeV2 params pindexLast) / params.nTargetSpacing + 1) *
      params.nTargetSpacing < 2 ^ 256) :
    nextTargetPoS params pindexLast pprev =
      let limit := params.proofOfStakeLimit (nextTimeV2 params pindexLast)
      getCompact (BitVec.ofNat 256 (if retarget params pindexLast pprev = 0 then limit.toNat
        else min limit.toNat (retarget params pindexLast pprev))) := by
  have hnew := h.toNat_scaledTarget hdiv
  rw [nextTargetPoS_eq hinterval]
  generalize scaledTarget params pindexLast pprev = bnNew at hnew ⊢
  generalize params.proofOfStakeLimit (nextTimeV2 params pindexLast) = limit
  have hlt := limit.isLt
  have hzero : bnNew = 0 ↔ retarget params pindexLast pprev = 0 := by
    rw [← hnew]
    exact ⟨fun e => by rw [e]; rfl, fun e => BitVec.eq_of_toNat_eq e⟩
  dsimp only
  congr 1
  apply BitVec.eq_of_toNat_eq
  rw [BitVec.toNat_ofNat]
  simp only [hzero, BitVec.lt_def, hnew]
  by_cases hz : retarget params pindexLast pprev = 0
  · rw [if_pos (Or.inl hz), if_pos hz, Nat.mod_eq_of_lt hlt]
  · rw [if_neg hz, Nat.mod_eq_of_lt (by omega)]
    by_cases hlim : limit.toNat < retarget params pindexLast pprev
    · rw [if_pos (Or.inr hlim)]
      omega
    · rw [if_neg (by simp only [hz, hlim, or_self, not_false_eq_true]), hnew]
      omega

/-! ## The main network -/

theorem mainNet_interval (fTimeV2 : Bool) :
    mainNetParams.targetTimespan fTimeV2 / mainNetParams.nTargetSpacing = if fTimeV2 then 30 else 40 := by
  cases fTimeV2 <;> rfl

theorem mainNet_limit (fTimeV2 : Bool) :
    (mainNetParams.proofOfStakeLimit fTimeV2).toNat = if fTimeV2 then 2 ^ 236 - 1 else 2 ^ 232 - 1 := by
  cases fTimeV2 <;> decide

theorem mainNet_factor :
    retargetFactor mainNetParams pindexLast pprev = (if nextTimeV2 mainNetParams pindexLast then 1740 else 2340) +
      2 * clampedSpacing mainNetParams pindexLast pprev := by
  rw [retargetFactor, mainNet_interval]
  cases nextTimeV2 mainNetParams pindexLast <;> rfl

theorem mainNet_clampedSpacing_le (hV2 : nextTimeV2 mainNetParams pindexLast = true) :
    clampedSpacing mainNetParams pindexLast pprev ≤ 600 := by
  unfold clampedSpacing
  simp only [hV2, if_true]
  exact Nat.min_le_right _ _

theorem lastTarget_of_timeV1 (hV1 : nextTimeV2 params pindexLast = false) :
    lastTarget params pindexLast = (setCompact pindexLast.nBits).1.toNat := by
  rw [lastTarget, hV1, Bool.false_and, if_neg (by decide), Nat.mul_one]

theorem lastTarget_le : lastTarget params pindexLast ≤ (setCompact pindexLast.nBits).1.toNat * 16 := by
  unfold lastTarget
  split <;> omega

theorem noWrap_of_timeV2 (hV2 : nextTimeV2 mainNetParams pindexLast = true)
    (hlimit : (setCompact pindexLast.nBits).1 ≤ mainNetParams.proofOfStakeLimit true) :
    NoWrap mainNetParams pindexLast pprev := by
  have hT : (setCompact pindexLast.nBits).1.toNat ≤ 2 ^ 236 - 1 := by
    rw [BitVec.le_def, mainNet_limit] at hlimit
    exact hlimit
  have hspacing : clampedSpacing mainNetParams pindexLast pprev ≤ 600 := mainNet_clampedSpacing_le hV2
  have hfactor : retargetFactor mainNetParams pindexLast pprev ≤ 2940 := by
    rw [mainNet_factor, hV2, if_pos rfl]
    omega
  refine ⟨Or.inl (by omega), by omega, ?_⟩
  have hlast : lastTarget mainNetParams pindexLast ≤ (setCompact pindexLast.nBits).1.toNat * 16 := lastTarget_le
  calc lastTarget mainNetParams pindexLast * retargetFactor mainNetParams pindexLast pprev
      ≤ ((2 ^ 236 - 1) * 16) * 2940 := Nat.mul_le_mul (by omega) hfactor
    _ < 2 ^ 256 := by decide

theorem noWrap_iff_of_timeV1 (hV1 : nextTimeV2 mainNetParams pindexLast = false) :
    NoWrap mainNetParams pindexLast pprev ↔ 2340 + 2 * clampedSpacing mainNetParams pindexLast pprev < 2 ^ 32 ∧
      (setCompact pindexLast.nBits).1.toNat * (2340 + 2 * clampedSpacing mainNetParams pindexLast pprev) < 2 ^ 256 := by
  have hfactor : retargetFactor mainNetParams pindexLast pprev =
      2340 + 2 * clampedSpacing mainNetParams pindexLast pprev := by
    rw [mainNet_factor, hV1, if_neg (by decide)]
  constructor
  · intro h
    have hproduct := h.product
    rw [lastTarget_of_timeV1 hV1, hfactor] at hproduct
    exact ⟨hfactor ▸ h.factor, hproduct⟩
  · rintro ⟨hlt, hproduct⟩
    refine ⟨Or.inr (by rw [hV1, Bool.false_and]), by rw [hfactor]; exact hlt, ?_⟩
    rw [lastTarget_of_timeV1 hV1, hfactor]
    exact hproduct

theorem noWrap_of_spacing_le (hV1 : nextTimeV2 mainNetParams pindexLast = false)
    (hlimit : (setCompact pindexLast.nBits).1 ≤ mainNetParams.proofOfStakeLimit false)
    (hspacing : clampedSpacing mainNetParams pindexLast pprev ≤ 97 * 24 * 60 * 60) :
    NoWrap mainNetParams pindexLast pprev := by
  have hT : (setCompact pindexLast.nBits).1.toNat ≤ 2 ^ 232 - 1 := by
    rw [BitVec.le_def, mainNet_limit] at hlimit
    exact hlimit
  rw [noWrap_iff_of_timeV1 hV1]
  refine ⟨by omega, ?_⟩
  calc (setCompact pindexLast.nBits).1.toNat * (2340 + 2 * clampedSpacing mainNetParams pindexLast pprev)
      ≤ (2 ^ 232 - 1) * (2340 + 2 * (97 * 24 * 60 * 60)) := Nat.mul_le_mul hT (by omega)
    _ < 2 ^ 256 := by decide

theorem nextWork_of_lastPoW {rest : List CBlockIndex} (hheight : mainNetParams.heightLastPoW ≤ pindexLast.nHeight) :
    nextWork mainNetParams (pindexLast :: pprev :: rest) = nextTargetPoS mainNetParams pindexLast pprev := by
  have hmin : ¬ pindexLast.nHeight < 24 := by
    have : 1000 ≤ pindexLast.nHeight := hheight
    omega
  simp only [nextWork, hmin, hheight, if_true, if_false]
  rfl

/-- The required target past the last proof-of-work block is the one over unbounded integers, where the target zero is
replaced by the limit, on every chain with the time protocol V2 and on those with the time protocol V1 where nothing
wraps. -/
theorem nextWork_exact {pindexLast pprev : CBlockIndex} {rest : List CBlockIndex}
    (hheight : mainNetParams.heightLastPoW ≤ pindexLast.nHeight)
    (hlimit : (setCompact pindexLast.nBits).1 ≤ mainNetParams.proofOfStakeLimit (nextTimeV2 mainNetParams pindexLast)) :
    (NoWrap mainNetParams pindexLast pprev → nextWork mainNetParams (pindexLast :: pprev :: rest) =
      let limit := (mainNetParams.proofOfStakeLimit (nextTimeV2 mainNetParams pindexLast)).toNat
      let bnNew := retarget mainNetParams pindexLast pprev
      getCompact (BitVec.ofNat 256 (if bnNew = 0 then limit else min limit bnNew))) ∧
    (NoWrap mainNetParams pindexLast pprev ↔ nextTimeV2 mainNetParams pindexLast = true ∨
      2340 + 2 * clampedSpacing mainNetParams pindexLast pprev < 2 ^ 32 ∧
        (setCompact pindexLast.nBits).1.toNat * (2340 + 2 * clampedSpacing mainNetParams pindexLast pprev) < 2 ^ 256) ∧
    (clampedSpacing mainNetParams pindexLast pprev ≤ 97 * 24 * 60 * 60 → NoWrap mainNetParams pindexLast pprev) := by
  refine ⟨fun h => ?_, ?_, fun hspacing => ?_⟩
  · rw [nextWork_of_lastPoW hheight]
    refine retarget_eq h ?_ ?_
    · rw [mainNet_interval]
      split <;> decide
    · rw [mainNet_interval]
      split <;> decide
  · cases hV : nextTimeV2 mainNetParams pindexLast with
    | false =>
      rw [noWrap_iff_of_timeV1 hV]
      simp only [Bool.false_eq_true, false_or]
    | true =>
      rw [hV] at hlimit
      simp only [true_or, iff_true]
      exact noWrap_of_timeV2 hV hlimit
  · cases hV : nextTimeV2 mainNetParams pindexLast with
    | false =>
      rw [hV] at hlimit
      exact noWrap_of_spacing_le hV hlimit hspacing
    | true =>
      rw [hV] at hlimit
      exact noWrap_of_timeV2 hV hlimit

/-- An entry of the main network. -/
def mainNetEntry (nHeight nTime nBits : Nat) : CBlockIndex :=
  ⟨0, none, none, nHeight, 0, ⟨7⟩, 0, nTime, nBits, 0⟩

/-- The first block of the time protocol V2, ten minutes after a block at the limit of V1. -/
theorem nextWork_exact_firstV2 :
    nextWork mainNetParams [mainNetEntry 1551999 1600000600 0x1e00ffff, mainNetEntry 1551998 1600000000 0x1e00ffff] =
      getCompact (BitVec.ofNat 256 (min (2 ^ 236 - 1) (0xffff * 2 ^ 216 * 16 * 2940 / 1860))) := by
  have h := @nextWork_exact (mainNetEntry 1551999 1600000600 0x1e00ffff) (mainNetEntry 1551998 1600000000 0x1e00ffff) []
    (by decide) (by decide)
  rw [h.1 (h.2.1.mpr (Or.inl (by decide)))]
  decide

/-- The target 1 comes out as zero when two blocks have one time, and the code returns the limit. -/
theorem not_nextWork_exact :
    ¬ ∀ (pindexLast pprev : CBlockIndex) (rest : List CBlockIndex),
      mainNetParams.heightLastPoW ≤ pindexLast.nHeight → 0 < (setCompact pindexLast.nBits).1 →
      (setCompact pindexLast.nBits).1 ≤ mainNetParams.proofOfStakeLimit (nextTimeV2 mainNetParams pindexLast) →
      nextWork mainNetParams (pindexLast :: pprev :: rest) =
        getCompact (BitVec.ofNat 256
          (min (mainNetParams.proofOfStakeLimit (nextTimeV2 mainNetParams pindexLast)).toNat
            (retarget mainNetParams pindexLast pprev))) := by
  intro h
  have h := h (mainNetEntry 1600000 1600000000 0x01010000) (mainNetEntry 1599999 1600000000 0x01010000) []
    (by decide) (by decide) (by decide)
  revert h
  decide

end DigiWage
