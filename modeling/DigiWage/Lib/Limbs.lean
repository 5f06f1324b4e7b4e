import Mathlib.Algebra.BigOperators.Fin
import Mathlib.Data.Nat.Bitwise
import Mathlib.Data.Nat.Size
import Mathlib.Tactic.Linarith
import Mathlib.Tactic.Ring

/-!
# Numbers in limbs

A number as `n` limbs of `w` bits, the lowest first. A limb is a part of the bits of the number (`limb_eq`, `testBit_value`), so that
an operation on limbs is described by what it does to the number: `value_update` for arithmetic, `testBit_value` for shifts, and
`value_lt_value` for comparisons.
-/

namespace DigiWage.Lib

open Finset

theorem foldl_induct {α : Type*} {n : Nat} {f : α → Fin n → α} {init : α} {motive : Nat → α → Prop} (h0 : motive 0 init)
    (hstep : ∀ (i : Fin n) (x : α), motive i x → motive (i + 1) (f x i)) : motive n (Fin.foldl n f init) := by
  induction n with
  | zero =>
    rw [Fin.foldl_zero]
    exact h0
  | succ n ih =>
    rw [Fin.foldl_succ_last]
    exact hstep (Fin.last n) _ (ih fun i x h => hstep i.castSucc x h)

/-- The number that limbs stand for. -/
def value (w : Nat) {n : Nat} (p : Fin n → Nat) : Nat := ∑ i, p i * 2 ^ (w * i)

section Value

variable {w n : Nat} {p q : Fin n → Nat}

theorem value_zero (w n : Nat) : value w (fun _ : Fin n => 0) = 0 := by simp [value]

theorem value_succ (w : Nat) (p : Fin (n + 1) → Nat) :
    value w p = value w (fun i : Fin n => p i.castSucc) + p (Fin.last n) * 2 ^ (w * n) := by
  rw [value, Fin.sum_univ_castSucc]
  rfl

/-- Another limb at an index. -/
theorem value_update (p : Fin n → Nat) (i : Fin n) (v : Nat) :
    value w (Function.update p i v) + p i * 2 ^ (w * i) = value w p + v * 2 ^ (w * i) := by
  have hrest : ∑ j ∈ univ.erase i, Function.update p i v j * 2 ^ (w * (j : Nat)) = ∑ j ∈ univ.erase i, p j * 2 ^ (w * (j : Nat)) := by
    apply sum_congr rfl
    intro j hj
    rw [Function.update_of_ne (ne_of_mem_erase hj)]
  rw [value, value, ← add_sum_erase univ _ (mem_univ i), ← add_sum_erase univ (fun j : Fin n => p j * 2 ^ (w * (j : Nat))) (mem_univ i),
    hrest, Function.update_self]
  omega

theorem value_lt : ∀ {n : Nat} {p : Fin n → Nat}, (∀ i, p i < 2 ^ w) → value w p < 2 ^ (w * n)
  | 0, p, _ => by simp [value]
  | n + 1, p, h => by
    have hlow := value_lt fun i : Fin n => h i.castSucc
    have hlast := h (Fin.last n)
    rw [value_succ, Nat.mul_succ, Nat.pow_add]
    calc value w (fun i : Fin n => p i.castSucc) + p (Fin.last n) * 2 ^ (w * n)
        < 2 ^ (w * n) + p (Fin.last n) * 2 ^ (w * n) := by omega
      _ = (p (Fin.last n) + 1) * 2 ^ (w * n) := by ring
      _ ≤ 2 ^ w * 2 ^ (w * n) := Nat.mul_le_mul_right _ hlast
      _ = 2 ^ (w * n) * 2 ^ w := Nat.mul_comm _ _

theorem testBit_value (hw : 0 < w) : ∀ {n : Nat} {p : Fin n → Nat}, (∀ i, p i < 2 ^ w) → ∀ (i : Fin n) {m : Nat}, m < w →
    (value w p).testBit (w * i + m) = (p i).testBit m
  | 0, _, _, i, _, _ => i.elim0
  | n + 1, p, h, i, m, hm => by
    have hlow := value_lt fun i : Fin n => h i.castSucc
    rw [value_succ, Nat.add_comm, Nat.mul_comm (p (Fin.last n)), Nat.testBit_two_pow_mul_add _ hlow]
    refine Fin.lastCases ?_ (fun i => ?_) i
    · rw [Fin.val_last, if_neg (by omega), Nat.add_sub_cancel_left]
    · have hlt : w * (i : Nat) + m < w * n := by
        calc w * (i : Nat) + m < w * i + w := by omega
          _ = w * (i + 1) := by ring
          _ ≤ w * n := Nat.mul_le_mul_left w i.isLt
      rw [Fin.val_castSucc, if_pos hlt, testBit_value hw (fun i : Fin n => h i.castSucc) i hm]

/-- A limb is read off the number. -/
theorem limb_eq (hw : 0 < w) (h : ∀ i, p i < 2 ^ w) (i : Fin n) : value w p / 2 ^ (w * i) % 2 ^ w = p i := by
  apply Nat.eq_of_testBit_eq
  intro m
  rw [Nat.testBit_mod_two_pow, Nat.testBit_div_two_pow, Nat.add_comm]
  by_cases hm : m < w
  · rw [testBit_value hw h i hm, decide_eq_true hm, Bool.true_and]
  · rw [decide_eq_false hm, Bool.false_and]
    exact (Nat.testBit_lt_two_pow ((h i).trans_le (Nat.pow_le_pow_right (by omega) (Nat.le_of_not_lt hm)))).symm

theorem value_mod_succ (hw : 0 < w) (h : ∀ i, p i < 2 ^ w) (i : Fin n) :
    value w p % 2 ^ (w * (i + 1)) = value w p % 2 ^ (w * i) + p i * 2 ^ (w * i) := by
  rw [Nat.mul_succ, Nat.pow_add, Nat.mod_mul, limb_eq hw h]
  ring

theorem value_lt_of_high (hw : 0 < w) (h : ∀ i, p i < 2 ^ w) {k : Nat} (hhigh : ∀ i : Fin n, k ≤ i → p i = 0) :
    value w p < 2 ^ (w * k) := by
  apply Nat.lt_pow_two_of_testBit
  intro m hm
  by_cases hn : m < w * n
  · have hdiv : m / w < n := Nat.div_lt_of_lt_mul hn
    have hbit := testBit_value hw h ⟨m / w, hdiv⟩ (Nat.mod_lt m hw)
    rw [hhigh ⟨m / w, hdiv⟩ ((Nat.le_div_iff_mul_le hw).mpr (by rw [Nat.mul_comm]; exact hm)), Nat.zero_testBit] at hbit
    simpa only [Nat.div_add_mod] using hbit
  · exact Nat.testBit_lt_two_pow ((value_lt h).trans_le (Nat.pow_le_pow_right (by omega) (Nat.le_of_not_lt hn)))

theorem value_add_value : ∀ {n : Nat} {p q : Fin n → Nat}, (∀ i, p i + q i + 1 = 2 ^ w) →
    value w p + value w q + 1 = 2 ^ (w * n)
  | 0, _, _, _ => by simp [value]
  | n + 1, p, q, h => by
    have hrest := value_add_value fun i : Fin n => h i.castSucc
    have hlast := h (Fin.last n)
    rw [value_succ, value_succ, Nat.mul_succ, Nat.pow_add, ← hlast]
    linarith

/-- The highest limb that differs decides. -/
theorem value_lt_value : ∀ {n : Nat} {p q : Fin n → Nat}, (∀ i, p i < 2 ^ w) → ∀ i : Fin n, p i < q i →
    (∀ j, i < j → p j = q j) → value w p < value w q
  | 0, _, _, _, i, _, _ => i.elim0
  | n + 1, p, q, h, i, hlt, hsame => by
    have hlow := value_lt fun i : Fin n => h i.castSucc
    rw [value_succ, value_succ]
    revert hlt hsame
    refine Fin.lastCases ?_ (fun i => ?_) i
    · intro hlt _
      calc value w (fun i : Fin n => p i.castSucc) + p (Fin.last n) * 2 ^ (w * n)
          < 2 ^ (w * n) + p (Fin.last n) * 2 ^ (w * n) := by omega
        _ = (p (Fin.last n) + 1) * 2 ^ (w * n) := by ring
        _ ≤ q (Fin.last n) * 2 ^ (w * n) := Nat.mul_le_mul_right _ hlt
        _ ≤ value w (fun i : Fin n => q i.castSucc) + q (Fin.last n) * 2 ^ (w * n) := Nat.le_add_left _ _
    · intro hlt hsame
      have hrest := value_lt_value (fun i : Fin n => h i.castSucc) i hlt fun j hj => hsame j.castSucc (by simpa using hj)
      rw [hsame (Fin.last n) (Fin.castSucc_lt_last i)]
      omega

end Value

theorem and_two_pow_ne_zero_iff (x m : Nat) : x &&& 2 ^ m ≠ 0 ↔ x.testBit m = true := by
  rw [Nat.and_two_pow]
  cases x.testBit m <;> simp

theorem size_eq {x n : Nat} (hlow : 2 ^ n ≤ x) (hhigh : x < 2 ^ (n + 1)) : x.size = n + 1 :=
  le_antisymm (Nat.size_le.mpr hhigh) (Nat.lt_size.mpr hlow)

theorem size_add_mul {x y n : Nat} (hx : x < 2 ^ n) (hy : y ≠ 0) : (x + y * 2 ^ n).size = n + y.size := by
  have hpos : 0 < y.size := Nat.size_pos.mpr (Nat.pos_of_ne_zero hy)
  have hlow : 2 ^ (y.size - 1) ≤ y := Nat.lt_size.mp (by omega)
  have hhigh : y + 1 ≤ 2 ^ y.size := Nat.lt_size_self y
  have hsplit : n + y.size = (n + (y.size - 1)) + 1 := by omega
  rw [hsplit]
  apply size_eq
  · calc 2 ^ (n + (y.size - 1)) = 2 ^ (y.size - 1) * 2 ^ n := by rw [Nat.pow_add, Nat.mul_comm]
      _ ≤ y * 2 ^ n := Nat.mul_le_mul_right _ hlow
      _ ≤ x + y * 2 ^ n := Nat.le_add_left _ _
  · calc x + y * 2 ^ n < 2 ^ n + y * 2 ^ n := by omega
      _ = (y + 1) * 2 ^ n := by ring
      _ ≤ 2 ^ y.size * 2 ^ n := Nat.mul_le_mul_right _ hhigh
      _ = 2 ^ (n + (y.size - 1) + 1) := by rw [← hsplit, Nat.pow_add, Nat.mul_comm]

end DigiWage.Lib
