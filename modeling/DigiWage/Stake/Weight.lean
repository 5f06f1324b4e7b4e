import DigiWage.Stake.Kernel
import DigiWage.Chain.Retarget
import DigiWage.Lib.Wrap

/-!
# The weight of a stake

`CheckKernelHash` multiplies the target with the value of the stake, in 256 bits. A larger stake meets what a smaller one
meets exactly as long as the target times the largest amount in the money range does not wrap (`checkKernelHash_mono_iff`).
-/

namespace DigiWage

open Lib StakeNode

variable {nBits : Nat} {nMaxMoneyOut : Int}

theorem toNat_stakeTarget {stakeValue : Int} (hlt : stakeValue < 2 ^ 63) (hnonneg : 0 ≤ stakeValue) :
    (stakeTarget nBits stakeValue).toNat = (setCompact nBits).1.toNat * (stakeValue / 100).toNat % 2 ^ 256 := by
  have hvalue : (BitVec.ofNat 256 (stakeValue % 2 ^ 64).toNat / 100 : Uint256).toNat = (stakeValue / 100).toNat := by
    rw [BitVec.toNat_udiv, BitVec.toNat_ofNat, Nat.mod_eq_of_lt (by omega)]
    have h100 : (100 : Uint256).toNat = 100 := rfl
    rw [h100]
    omega
  rw [stakeTarget, BitVec.toNat_mul, hvalue]

theorem forall_lt_imp_lt_iff {target target' : Uint256} :
    (∀ hash : Uint256, hash < target → hash < target') ↔ target.toNat ≤ target'.toNat := by
  constructor
  · intro h
    by_contra hle
    exact BitVec.lt_irrefl _ (h target' (by rw [BitVec.lt_def]; omega))
  · intro h hash hlt
    rw [BitVec.lt_def] at hlt ⊢
    omega

/-- A stake in the money range is as good as every smaller one. -/
def WeightMonotone (nBits : Nat) (nMaxMoneyOut : Int) : Prop :=
  ∀ (hashProofOfStake : Uint256) (v v' : Int), 0 ≤ v → v ≤ v' → v' ≤ nMaxMoneyOut →
    checkKernelHash hashProofOfStake nBits v → checkKernelHash hashProofOfStake nBits v'

/-- The weighted target of every stake in the money range is the exact product. -/
def WeightExact (nBits : Nat) (nMaxMoneyOut : Int) : Prop :=
  ∀ v : Int, 0 ≤ v → v ≤ nMaxMoneyOut →
    (stakeTarget nBits v).toNat = (setCompact nBits).1.toNat * (v / 100).toNat

theorem weightMonotone_iff (hmax : nMaxMoneyOut < 2 ^ 63) :
    WeightMonotone nBits nMaxMoneyOut ↔
      ∀ a b, a ≤ b → b ≤ (nMaxMoneyOut / 100).toNat →
        (setCompact nBits).1.toNat * a % 2 ^ 256 ≤ (setCompact nBits).1.toNat * b % 2 ^ 256 := by
  have hvalues : WeightMonotone nBits nMaxMoneyOut ↔ ∀ v v' : Int, 0 ≤ v → v ≤ v' → v' ≤ nMaxMoneyOut →
      (stakeTarget nBits v).toNat ≤ (stakeTarget nBits v').toNat := by
    simp only [WeightMonotone, checkKernelHash_eq, decide_eq_true_eq, ← forall_lt_imp_lt_iff]
    exact ⟨fun h v v' h₀ h₁ h₂ hash => h hash v v' h₀ h₁ h₂, fun h hash v v' h₀ h₁ h₂ => h v v' h₀ h₁ h₂ hash⟩
  rw [hvalues]
  constructor
  · intro h a b hab hb
    by_cases hzero : b = 0
    · have ha : a = 0 := by omega
      rw [ha, hzero]
    have hmul := h (100 * a) (100 * b) (by omega) (by omega) (by omega)
    rw [toNat_stakeTarget (by omega) (by omega), toNat_stakeTarget (by omega) (by omega)] at hmul
    have ha : ((100 * a : Int) / 100).toNat = a := by omega
    have hb : ((100 * b : Int) / 100).toNat = b := by omega
    rwa [ha, hb] at hmul
  · intro h v v' h₀ hle hmax'
    rw [toNat_stakeTarget (by omega) h₀, toNat_stakeTarget (by omega) (by omega)]
    exact h _ _ (by omega) (by omega)

theorem weightExact_iff (hmax : nMaxMoneyOut < 2 ^ 63) :
    WeightExact nBits nMaxMoneyOut ↔ (setCompact nBits).1.toNat * (nMaxMoneyOut / 100).toNat < 2 ^ 256 := by
  constructor
  · intro h
    by_cases hneg : nMaxMoneyOut < 0
    · have hzero : (nMaxMoneyOut / 100).toNat = 0 := by omega
      rw [hzero, Nat.mul_zero]
      exact Nat.two_pow_pos 256
    · rw [← h nMaxMoneyOut (by omega) (le_refl _)]
      exact BitVec.isLt _
  · intro h v h₀ hle
    have hbound : (setCompact nBits).1.toNat * (v / 100).toNat ≤
        (setCompact nBits).1.toNat * (nMaxMoneyOut / 100).toNat := Nat.mul_le_mul_left _ (by omega)
    rw [toNat_stakeTarget (by omega) h₀, Nat.mod_eq_of_lt (by omega)]

/-- A larger stake meets what a smaller one meets, and the weighted target is the exact product, exactly when the target
times the largest amount does not wrap. -/
theorem checkKernelHash_mono_iff (nBits : Nat) {nMaxMoneyOut : Int} (hmax : nMaxMoneyOut < 2 ^ 63) :
    (WeightMonotone nBits nMaxMoneyOut ↔ (setCompact nBits).1.toNat * (nMaxMoneyOut / 100).toNat < 2 ^ 256) ∧
    (WeightExact nBits nMaxMoneyOut ↔ (setCompact nBits).1.toNat * (nMaxMoneyOut / 100).toNat < 2 ^ 256) := by
  refine ⟨?_, weightExact_iff hmax⟩
  rw [weightMonotone_iff hmax]
  exact mul_mod_mono_iff (setCompact nBits).1.isLt

/-- At the limit of the time protocol V2 a stake of a little more than one coin wraps. -/
theorem not_checkKernelHash_mono :
    ¬ ∀ nBits : Nat, 0 < (setCompact nBits).1 → (setCompact nBits).1 ≤ mainNetParams.proofOfStakeLimit true →
      WeightMonotone nBits (120000000 * COIN) := by
  intro h
  have h := h 0x1e0fffff (by decide) (by decide) (stakeTarget 0x1e0fffff 104857800) 104857700 104857800 (by decide)
    (by decide) (by decide)
  revert h
  decide

theorem checkKernelHash_mono_iff_mainNet :
    (120000000 * COIN < 2 ^ 63) ∧ WeightMonotone 0x1a0404cb (120000000 * COIN) ∧
      WeightExact 0x1a0404cb (120000000 * COIN) := by
  have h := @checkKernelHash_mono_iff 0x1a0404cb (120000000 * COIN) (by decide)
  exact ⟨by decide, h.1.mpr (by decide), h.2.mpr (by decide)⟩

end DigiWage
