import DigiWage.Chain.Compact
import DigiWage.Lib.Limbs
import Mathlib.Order.Bounds.Basic

/-!
# Compact codes

A compact code has an exponent in its high byte and a mantissa of 23 bits; the number is `mantissa * 256 ^ (exponent - 3)`, where
the mantissa loses bytes when the exponent is below 3 (`setCompact_value`). The flags say that the sign bit is set, and that the
number does not fit (`setCompact_overflow_iff`).

* `Canonical`: the codes that `GetCompact` gives (`canonical_getCompact`). A number has one of them at most (`canonical_unique`).
-/

namespace DigiWage

open Lib

/-! ## Parts of a code -/

/-- `nSize` of a code. -/
def compactSize (n : Nat) : Nat := n / 2 ^ 24

/-- `nWord` of a code, before it is shifted. -/
def compactWord (n : Nat) : Nat := n % 2 ^ 23

/-- `nWord` of a code, after it has been shifted. -/
def compactMantissa (n : Nat) : Nat := compactWord n / 256 ^ (3 - compactSize n)

theorem pow_256 (k : Nat) : 256 ^ k = 2 ^ (8 * k) := by norm_num [pow_mul]

theorem compactMantissa_lt (n : Nat) : compactMantissa n < 2 ^ 23 :=
  (Nat.div_le_self _ _).trans_lt (Nat.mod_lt _ (Nat.two_pow_pos 23))

theorem setCompact_eq (n : Nat) : setCompact n =
    (BitVec.ofNat 256 (compactMantissa n * 256 ^ (compactSize n - 3)),
      decide (compactMantissa n ≠ 0) && n.testBit 23,
      decide (compactMantissa n ≠ 0) && (decide (34 < compactSize n) || (decide (0xff < compactMantissa n) && decide (33 < compactSize n)) ||
        (decide (0xffff < compactMantissa n) && decide (32 < compactSize n)))) := by
  have hsize : n >>> 24 = compactSize n := Nat.shiftRight_eq_div_pow _ _
  have hword : n &&& 0x007fffff = compactWord n := Nat.and_two_pow_sub_one_eq_mod n 23
  have hsign : decide (n &&& 0x00800000 ≠ 0) = n.testBit 23 := by
    rw [Bool.eq_iff_iff, decide_eq_true_iff, ← and_two_pow_ne_zero_iff]
    exact Iff.rfl
  have hmantissa : (if compactSize n ≤ 3 then compactWord n >>> (8 * (3 - compactSize n)) else compactWord n) = compactMantissa n := by
    split
    · rw [Nat.shiftRight_eq_div_pow, ← pow_256]
      rfl
    · rw [compactMantissa, Nat.sub_eq_zero_of_le (by omega), pow_zero, Nat.div_one]
  unfold setCompact
  simp only [hsize, hword, hmantissa, hsign]
  congr 1
  split
  · rw [Nat.sub_eq_zero_of_le (by omega), pow_zero, Nat.mul_one]
  · apply BitVec.eq_of_toNat_eq
    simp only [BitVec.toNat_shiftLeft, BitVec.toNat_ofNat, Nat.shiftLeft_eq, pow_256, Nat.mod_mul_mod]

theorem setCompact_negative_iff (n : Nat) : (setCompact n).2.1 = true ↔ compactMantissa n ≠ 0 ∧ n.testBit 23 = true := by
  simp [setCompact_eq]

theorem setCompact_overflow_iff (n : Nat) :
    (setCompact n).2.2 = true ↔ 2 ^ 256 ≤ compactMantissa n * 256 ^ (compactSize n - 3) := by
  have hlt := compactMantissa_lt n
  simp only [setCompact_eq, Bool.and_eq_true, Bool.or_eq_true, decide_eq_true_eq]
  generalize compactMantissa n = m at *
  generalize compactSize n = size
  have hbytes : (2 : Nat) ^ 256 = 256 ^ 32 := (pow_256 32).symm
  rcases Nat.lt_or_ge size 32 with hsmall | hbig
  · have hfits : m * 256 ^ (size - 3) < 2 ^ 256 := by
      calc m * 256 ^ (size - 3) < 256 ^ 3 * 256 ^ (size - 3) := Nat.mul_lt_mul_of_pos_right (by omega) (Nat.pos_of_neZero _)
        _ = 256 ^ (3 + (size - 3)) := (Nat.pow_add _ _ _).symm
        _ ≤ 256 ^ 32 := Nat.pow_le_pow_right (by omega) (by omega)
        _ = 2 ^ 256 := hbytes.symm
    omega
  · rcases Nat.lt_or_ge size 35 with hedge | hbig
    · obtain rfl | rfl | rfl : size = 32 ∨ size = 33 ∨ size = 34 := by omega
      all_goals norm_num; omega
    · have hover : m ≠ 0 → 2 ^ 256 ≤ m * 256 ^ (size - 3) := fun hne => by
        calc 2 ^ 256 = 256 ^ 32 := hbytes
          _ ≤ 256 ^ (size - 3) := Nat.pow_le_pow_right (by omega) (by omega)
          _ ≤ m * 256 ^ (size - 3) := Nat.le_mul_of_pos_left _ (Nat.pos_of_ne_zero hne)
      constructor
      · exact fun h => hover h.1
      · intro h
        refine ⟨?_, Or.inl (Or.inl (by omega))⟩
        rintro rfl
        rw [Nat.zero_mul] at h
        exact absurd h (by norm_num)

/-- The number of a code that fits. -/
theorem setCompact_value {n : Nat} (h : (setCompact n).2.2 = false) :
    (setCompact n).1.toNat = compactMantissa n * 256 ^ (compactSize n - 3) := by
  have hfits : ¬2 ^ 256 ≤ compactMantissa n * 256 ^ (compactSize n - 3) := by
    rw [← setCompact_overflow_iff, h]
    exact Bool.false_ne_true
  rw [setCompact_eq, BitVec.toNat_ofNat, Nat.mod_eq_of_lt (Nat.lt_of_not_le hfits)]

/-! ## Encoding -/

theorem bytes_bounds {x : Uint256} (hx : x ≠ 0) : ∃ size, (bits x + 7) / 8 = size + 1 ∧ 256 ^ size ≤ x.toNat ∧ x.toNat < 256 ^ (size + 1) ∧
    size < 32 := by
  have hpos : x.toNat ≠ 0 := fun h => hx (BitVec.eq_of_toNat_eq h)
  have hlow := Nat.log2_self_le hpos
  have hhigh := Nat.lt_log2_self (n := x.toNat)
  have hlog : x.toNat.log2 < 256 := (Nat.log2_lt hpos).mpr x.isLt
  refine ⟨x.toNat.log2 / 8, ?_, ?_, ?_, by omega⟩
  · rw [bits, if_neg hx]
    omega
  · rw [pow_256]
    exact (Nat.pow_le_pow_right (by omega) (by omega)).trans hlow
  · rw [pow_256]
    exact hhigh.trans_le (Nat.pow_le_pow_right (by omega) (by omega))

theorem compact_word {x : Uint256} {size : Nat} (hx : x.toNat < 256 ^ size) :
    (if size ≤ 3 then (x.toNat % 2 ^ 64) <<< (8 * (3 - size)) % 2 ^ 32 else (x >>> (8 * (size - 3))).toNat % 2 ^ 32) =
      x.toNat * 256 ^ (3 - size) / 256 ^ (size - 3) := by
  split
  · rename_i hsize
    have hsmall : x.toNat * 256 ^ (3 - size) < 256 ^ 3 := by
      calc x.toNat * 256 ^ (3 - size) < 256 ^ size * 256 ^ (3 - size) := Nat.mul_lt_mul_of_pos_right hx (Nat.pos_of_neZero _)
        _ = 256 ^ 3 := by rw [← Nat.pow_add, Nat.add_sub_cancel' hsize]
    have hle : x.toNat ≤ x.toNat * 256 ^ (3 - size) := Nat.le_mul_of_pos_right _ (Nat.pos_of_neZero _)
    have hlow64 : x.toNat % 2 ^ 64 = x.toNat := Nat.mod_eq_of_lt (by omega)
    rw [hlow64, Nat.sub_eq_zero_of_le hsize, pow_zero, Nat.div_one, Nat.shiftLeft_eq, ← pow_256, Nat.mod_eq_of_lt (by omega)]
  · rename_i hsize
    have hsmall : x.toNat / 256 ^ (size - 3) < 256 ^ 3 := by
      apply Nat.div_lt_of_lt_mul
      rw [← Nat.pow_add, Nat.sub_add_cancel (by omega)]
      exact hx
    rw [BitVec.toNat_ushiftRight, Nat.shiftRight_eq_div_pow, ← pow_256, Nat.sub_eq_zero_of_le (by omega : 3 ≤ size), pow_zero,
      Nat.mul_one, Nat.mod_eq_of_lt (by omega)]

theorem getCompact_spec {x : Uint256} (hx : x ≠ 0) : ∃ size word, getCompact x = size * 2 ^ 24 + word ∧ 1 ≤ size ∧ size ≤ 33 ∧
    2 ^ 15 ≤ word ∧ word < 2 ^ 23 ∧ word = x.toNat * 256 ^ (3 - size) / 256 ^ (size - 3) := by
  obtain ⟨size, hsize, hlow, hhigh, hlt⟩ := bytes_bounds hx
  have hword := compact_word hhigh
  have hwlow : 2 ^ 16 ≤ x.toNat * 256 ^ (3 - (size + 1)) / 256 ^ (size + 1 - 3) := by
    rw [Nat.le_div_iff_mul_le (Nat.pos_of_neZero _)]
    calc 256 ^ 2 * 256 ^ (size + 1 - 3) = 256 ^ size * 256 ^ (3 - (size + 1)) := by
          rw [← Nat.pow_add, ← Nat.pow_add]
          congr 1
          omega
      _ ≤ x.toNat * 256 ^ (3 - (size + 1)) := Nat.mul_le_mul_right _ hlow
  have hwhigh : x.toNat * 256 ^ (3 - (size + 1)) / 256 ^ (size + 1 - 3) < 2 ^ 24 := by
    apply Nat.div_lt_of_lt_mul
    calc x.toNat * 256 ^ (3 - (size + 1)) < 256 ^ (size + 1) * 256 ^ (3 - (size + 1)) :=
          Nat.mul_lt_mul_of_pos_right hhigh (Nat.pos_of_neZero _)
      _ = 256 ^ (size + 1 - 3) * 256 ^ 3 := by
          rw [← Nat.pow_add, ← Nat.pow_add]
          congr 1
          omega
  unfold getCompact
  simp only [hsize, hword]
  generalize hw : x.toNat * 256 ^ (3 - (size + 1)) / 256 ^ (size + 1 - 3) = word at *
  have hsign : word &&& 0x00800000 ≠ 0 ↔ 2 ^ 23 ≤ word := by
    refine (and_two_pow_ne_zero_iff word 23).trans ⟨Nat.ge_two_pow_of_testBit, fun h => ?_⟩
    exact Nat.testBit_of_two_pow_le_and_two_pow_add_one_gt h hwhigh
  have hor : ∀ w s, w < 2 ^ 24 → w ||| s <<< 24 = s * 2 ^ 24 + w := by
    intro w s hw
    rw [Nat.or_comm, ← Nat.shiftLeft_add_eq_or_of_lt hw, Nat.shiftLeft_eq]
  by_cases hneg : 2 ^ 23 ≤ word
  · rw [if_pos (hsign.mpr hneg), Nat.shiftRight_eq_div_pow, hor _ _ (by omega)]
    refine ⟨size + 2, word / 2 ^ 8, rfl, by omega, by omega, by omega, by omega, ?_⟩
    change word / 256 = _
    rw [← hw]
    rcases Nat.lt_or_ge size 2 with hsize | hsize
    · have hexp : 3 - (size + 1) = 3 - (size + 2) + 1 := by omega
      rw [Nat.sub_eq_zero_of_le (by omega : size + 1 ≤ 3), Nat.sub_eq_zero_of_le (by omega : size + 2 ≤ 3), hexp, pow_succ 256, pow_zero,
        Nat.div_one, Nat.div_one, ← Nat.mul_assoc, Nat.mul_div_cancel _ (by omega)]
    · have hexp : size + 2 - 3 = size + 1 - 3 + 1 := by omega
      rw [Nat.sub_eq_zero_of_le (by omega : 3 ≤ size + 1), Nat.sub_eq_zero_of_le (by omega : 3 ≤ size + 2), hexp, pow_succ 256,
        Nat.div_div_eq_div_mul]
  · rw [if_neg (mt hsign.mp hneg), hor _ _ hwhigh]
    exact ⟨size + 1, word, rfl, by omega, by omega, by omega, by omega, hw.symm⟩

/-- The codes that `GetCompact` gives: without the sign bit, with no smaller exponent possible, and with no bits that `SetCompact`
drops. -/
def Canonical (c : Nat) : Prop :=
  c = 0 ∨ c < 2 ^ 32 ∧ 1 ≤ compactSize c ∧ c.testBit 23 = false ∧ 2 ^ 15 ≤ compactWord c ∧ 256 ^ (3 - compactSize c) ∣ compactWord c

theorem code_parts {size word : Nat} (hw : word < 2 ^ 23) :
    compactSize (size * 2 ^ 24 + word) = size ∧ compactWord (size * 2 ^ 24 + word) = word ∧
      (size * 2 ^ 24 + word).testBit 23 = false := by
  refine ⟨?_, ?_, ?_⟩
  · rw [compactSize]
    omega
  · rw [compactWord]
    omega
  · rw [Nat.testBit_eq_decide_div_mod_eq, decide_eq_false_iff_not]
    omega

theorem code_eq {c : Nat} (h : c.testBit 23 = false) : c = compactSize c * 2 ^ 24 + compactWord c := by
  rw [Nat.testBit_eq_decide_div_mod_eq, decide_eq_false_iff_not] at h
  rw [compactSize, compactWord]
  omega

theorem canonical_getCompact (x : Uint256) : Canonical (getCompact x) := by
  by_cases hx : x = 0
  · left
    rw [hx]
    rfl
  · right
    obtain ⟨size, word, heq, hsize, hlt, hlow, hhigh, hword⟩ := getCompact_spec hx
    obtain ⟨h1, h2, h3⟩ := @code_parts size word hhigh
    rw [heq, h1, h2, h3]
    refine ⟨by omega, hsize, rfl, hlow, ?_⟩
    rcases Nat.le_total size 3 with hle | hle
    · rw [hword, Nat.sub_eq_zero_of_le hle, pow_zero, Nat.div_one]
      exact dvd_mul_left _ _
    · rw [Nat.sub_eq_zero_of_le hle, pow_zero]
      exact one_dvd _

/-! ## Rounding -/

theorem setCompact_getCompact {x : Uint256} (hx : x ≠ 0) : ∃ size word, 2 ^ 15 ≤ word ∧ (3 < size → word = x.toNat / 256 ^ (size - 3)) ∧
    (setCompact (getCompact x)).2 = (false, false) ∧
    (setCompact (getCompact x)).1.toNat = x.toNat / 256 ^ (size - 3) * 256 ^ (size - 3) := by
  obtain ⟨size, word, heq, hsize, hlt, hlow, hhigh, hword⟩ := getCompact_spec hx
  obtain ⟨h1, h2, h3⟩ := @code_parts size word hhigh
  have hbig : 3 ≤ size → word = x.toNat / 256 ^ (size - 3) := fun hle => by
    rw [hword, Nat.sub_eq_zero_of_le hle, pow_zero, Nat.mul_one]
  have hmantissa : compactMantissa (getCompact x) = x.toNat / 256 ^ (size - 3) := by
    rw [compactMantissa, heq, h1, h2]
    rcases Nat.le_total size 3 with hle | hle
    · rw [hword, Nat.sub_eq_zero_of_le hle, pow_zero, Nat.div_one, Nat.div_one, Nat.mul_div_cancel _ (Nat.pos_of_neZero _)]
    · rw [Nat.sub_eq_zero_of_le hle, pow_zero, Nat.div_one, hbig hle]
  have hexp : compactSize (getCompact x) = size := by rw [heq, h1]
  have hneg : (setCompact (getCompact x)).2.1 = false := by
    rw [← Bool.not_eq_true, setCompact_negative_iff, heq, h3]
    simp
  have hover : (setCompact (getCompact x)).2.2 = false := by
    rw [← Bool.not_eq_true, setCompact_overflow_iff, hmantissa, hexp, Nat.not_le]
    exact (Nat.div_mul_le_self _ _).trans_lt x.isLt
  refine ⟨size, word, hlow, fun h => hbig h.le, Prod.ext hneg hover, ?_⟩
  rw [setCompact_value hover, hmantissa, hexp]

/-- The numbers that fit into a mantissa and an exponent. -/
def Encodable (y : Nat) : Prop := ∃ m k, m < 2 ^ 23 ∧ y = m * 256 ^ k

theorem encodable_setCompact {n : Nat} (h : (setCompact n).2 = (false, false)) : Encodable (setCompact n).1.toNat :=
  ⟨_, _, compactMantissa_lt n, setCompact_value (congrArg Prod.snd h)⟩

theorem getCompact_rounds (x : Uint256) : (setCompact (getCompact x)).2 = (false, false) ∧
    IsGreatest {y | y ≤ x.toNat ∧ Encodable y} (setCompact (getCompact x)).1.toNat := by
  by_cases hx : x = 0
  · subst hx
    refine ⟨rfl, ⟨Nat.le_refl _, 0, 0, by omega, rfl⟩, ?_⟩
    rintro y ⟨hy, -⟩
    exact hy
  · obtain ⟨size, word, hlow, hword, hflags, hvalue⟩ := setCompact_getCompact hx
    have henc := encodable_setCompact hflags
    rw [hvalue] at henc ⊢
    refine ⟨hflags, ⟨Nat.div_mul_le_self _ _, henc⟩, ?_⟩
    rintro y ⟨hy, m, k, hm, rfl⟩
    rcases Nat.lt_or_ge k (size - 3) with hk | hk
    · -- with a smaller exponent the mantissa does not reach the word
      calc m * 256 ^ k ≤ 2 ^ 23 * 256 ^ (size - 3 - 1) := Nat.mul_le_mul hm.le (Nat.pow_le_pow_right (by omega) (by omega))
        _ = 2 ^ 15 * 256 ^ (size - 3 - 1 + 1) := by ring
        _ = 2 ^ 15 * 256 ^ (size - 3) := by rw [Nat.sub_add_cancel (by omega)]
        _ ≤ word * 256 ^ (size - 3) := Nat.mul_le_mul_right _ hlow
        _ = _ := by rw [hword (by omega)]
    · obtain ⟨q, hq⟩ := (pow_dvd_pow 256 hk).mul_left m
      rw [hq] at hy ⊢
      rw [Nat.mul_comm] at hy ⊢
      exact Nat.mul_le_mul_right _ ((Nat.le_div_iff_mul_le (Nat.pos_of_neZero _)).mpr hy)

theorem getCompact_exact {n : Nat} (h : (setCompact n).2 = (false, false)) :
    setCompact (getCompact (setCompact n).1) = ((setCompact n).1, false, false) := by
  obtain ⟨hflags, hle, hmax⟩ := getCompact_rounds (setCompact n).1
  have hge := hmax ⟨Nat.le_refl _, encodable_setCompact h⟩
  exact Prod.ext (BitVec.eq_of_toNat_eq (le_antisymm hle.1 hge)) hflags

/-! ## Uniqueness -/

theorem compactMantissa_mul {c : Nat} (h : 256 ^ (3 - compactSize c) ∣ compactWord c) :
    compactMantissa c * 256 ^ (compactSize c - 3) * 256 ^ 3 = compactWord c * 256 ^ compactSize c := by
  rw [compactMantissa, Nat.mul_assoc, ← Nat.pow_add]
  rcases Nat.le_total (compactSize c) 3 with hle | hle
  · obtain ⟨q, hq⟩ := h
    have hexp : compactSize c - 3 + 3 = 3 - compactSize c + compactSize c := by omega
    rw [hq, Nat.mul_div_cancel_left _ (Nat.pos_of_neZero _), hexp, Nat.pow_add]
    ring
  · rw [Nat.sub_eq_zero_of_le hle, pow_zero, Nat.div_one, Nat.sub_add_cancel hle]

theorem exponent_le {m m' e e' : Nat} (hlow : 2 ^ 15 ≤ m) (hhigh : m' < 2 ^ 23) (heq : m * 256 ^ e = m' * 256 ^ e') : e ≤ e' := by
  by_contra hlt
  have hsplit : e = e - e' - 1 + 1 + e' := by omega
  have hcancel : m * 256 ^ (e - e' - 1 + 1) = m' := by
    apply Nat.eq_of_mul_eq_mul_right (Nat.pos_of_neZero (256 ^ e'))
    rw [← heq, Nat.mul_assoc, ← Nat.pow_add, ← hsplit]
  have hbig : 2 ^ 15 * 256 ≤ m * 256 ^ (e - e' - 1 + 1) :=
    Nat.mul_le_mul hlow (Nat.le_self_pow (by omega) 256)
  omega

/-- A number has one canonical code. -/
theorem canonical_unique {c c' : Nat} (hc : Canonical c) (hc' : Canonical c')
    (heq : compactMantissa c * 256 ^ (compactSize c - 3) = compactMantissa c' * 256 ^ (compactSize c' - 3)) : c = c' := by
  have hpos : ∀ {d}, 2 ^ 15 ≤ compactWord d → compactWord d * 256 ^ compactSize d ≠ 0 := fun h =>
    Nat.mul_ne_zero (by omega) (Nat.pos_of_neZero _).ne'
  have hlt : ∀ d, compactWord d < 2 ^ 23 := fun d => Nat.mod_lt _ (Nat.two_pow_pos 23)
  have hzero : compactMantissa 0 * 256 ^ (compactSize 0 - 3) = 0 := rfl
  rcases hc with rfl | ⟨-, -, hsign, hlow, hdvd⟩ <;> rcases hc' with rfl | ⟨-, -, hsign', hlow', hdvd'⟩
  · rfl
  · have hmul := compactMantissa_mul hdvd'
    rw [← heq, hzero, Nat.zero_mul] at hmul
    exact absurd hmul.symm (hpos hlow')
  · have hmul := compactMantissa_mul hdvd
    rw [heq, hzero, Nat.zero_mul] at hmul
    exact absurd hmul.symm (hpos hlow)
  · have hnum : compactWord c * 256 ^ compactSize c = compactWord c' * 256 ^ compactSize c' := by
      rw [← compactMantissa_mul hdvd, ← compactMantissa_mul hdvd', heq]
    have hsize : compactSize c = compactSize c' :=
      le_antisymm (exponent_le hlow (hlt c') hnum) (exponent_le hlow' (hlt c) hnum.symm)
    rw [hsize] at hnum
    rw [code_eq hsign, code_eq hsign', hsize, Nat.eq_of_mul_eq_mul_right (Nat.pos_of_neZero _) hnum]

/-- **Compact codes.** Encoding rounds a number down to one that has a code, and re-encoding a code without flags gives the canonical
code of its number, of which there is only one. -/
theorem compact_roundTrip :
    (∀ x : Uint256, (setCompact (getCompact x)).2 = (false, false) ∧
      IsGreatest {y | y ≤ x.toNat ∧ Encodable y} (setCompact (getCompact x)).1.toNat) ∧
    ∀ n : Nat, (setCompact n).2 = (false, false) →
      Canonical (getCompact (setCompact n).1) ∧ setCompact (getCompact (setCompact n).1) = ((setCompact n).1, false, false) ∧
      ∀ c, Canonical c → setCompact c = ((setCompact n).1, false, false) → c = getCompact (setCompact n).1 := by
  refine ⟨getCompact_rounds, fun n hn => ⟨canonical_getCompact _, getCompact_exact hn, fun c hc heq => ?_⟩⟩
  have hexact := getCompact_exact hn
  apply canonical_unique hc (canonical_getCompact _)
  rw [← setCompact_value (by rw [heq]), ← setCompact_value (by rw [hexact]), heq, hexact]

/-- The code `0x1e0000ff` is not canonical. -/
theorem compact_roundTrip_codes : (setCompact (getCompact (setCompact 0x1e0000ff).1)).1 = (setCompact 0x1e0000ff).1 ∧
    getCompact (setCompact 0x1e0000ff).1 = 0x1d00ff00 :=
  ⟨congrArg Prod.fst (compact_roundTrip.2 0x1e0000ff rfl).2.1, rfl⟩

end DigiWage
