import Mathlib.Order.Basic
import Mathlib.Algebra.Order.Ring.Nat

/-!
# Multiplication that wraps

`k ↦ t * k` modulo `m`, for `k` up to a bound. As long as it does not wrap it is monotone; where it wraps for the first
time it falls (`mul_mod_lt_of_wrap`), so that it is monotone exactly when it does not wrap at all (`mul_mod_mono_iff`).
-/

namespace DigiWage.Lib

variable {m t k n : Nat}

theorem mul_mod_lt_of_wrap (ht : t < m) (hk : t * k < m) (hk' : m ≤ t * (k + 1)) : t * (k + 1) % m < t * k % m := by
  rw [Nat.mul_succ] at hk' ⊢
  rw [Nat.mod_eq_of_lt hk, Nat.mod_eq_sub_mod hk', Nat.mod_eq_of_lt (by omega)]
  omega

theorem exists_first_wrap (hn : m ≤ t * n) (hm : 0 < m) : ∃ k < n, t * k < m ∧ m ≤ t * (k + 1) := by
  induction n with
  | zero => omega
  | succ n ih =>
    by_cases h : m ≤ t * n
    · obtain ⟨k, hk, hwrap⟩ := ih h
      exact ⟨k, by omega, hwrap⟩
    · exact ⟨n, by omega, by omega, hn⟩

theorem mul_mod_mono_iff (ht : t < m) :
    (∀ a b, a ≤ b → b ≤ n → t * a % m ≤ t * b % m) ↔ t * n < m := by
  constructor
  · intro h
    by_contra hn
    obtain ⟨k, hk, hlt, hle⟩ := exists_first_wrap (Nat.le_of_not_lt hn) (by omega)
    have hfall := mul_mod_lt_of_wrap ht hlt hle
    have := h k (k + 1) (Nat.le_succ k) hk
    omega
  · intro hn a b hab hb
    have hbn : t * b ≤ t * n := Nat.mul_le_mul_left t hb
    have hbound : t * a ≤ t * b := Nat.mul_le_mul_left t hab
    rwa [Nat.mod_eq_of_lt (by omega), Nat.mod_eq_of_lt (by omega)]

end DigiWage.Lib
