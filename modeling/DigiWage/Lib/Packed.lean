import Mathlib.Data.Nat.Digits.Lemmas
import Mathlib.Tactic.Ring

/-!
# Digits of another width

The bits of a list of digits, regrouped into digits of another width. While this is done, some of the bits are pending: they have been
taken out of the one list, and have not yet filled a digit of the other.

* `Packed.push`, `Packed.pop`: a digit is taken, and a digit is filled. `Packed.fill`: one after the other.
* `Packed.pad`: the last digit is filled with zeros. Read the other way round, the zeros are then the bits that are pending.
-/

namespace DigiWage.Lib

/-- The digits of `w` bits in `source` have the bits of the digits of `v` bits in `target`, and then the `r` pending bits of `x`. The
first digit of a list is the highest. -/
structure Packed (w v : Nat) (source target : List Nat) (r x : Nat) : Prop where
  bits : w * source.length = v * target.length + r
  value : Nat.ofDigits (2 ^ w) source.reverse = Nat.ofDigits (2 ^ v) target.reverse * 2 ^ r + x
  pending_lt : x < 2 ^ r
  source_lt : ∀ d ∈ source, d < 2 ^ w
  target_lt : ∀ d ∈ target, d < 2 ^ v

variable {w v r r' x x' y d : Nat} {source source' target target' : List Nat}

theorem ofDigits_reverse_concat (b : Nat) (ds : List Nat) (d : Nat) :
    Nat.ofDigits b (ds ++ [d]).reverse = Nat.ofDigits b ds.reverse * b + d := by
  rw [List.reverse_append, List.reverse_singleton, List.singleton_append, Nat.ofDigits_cons]
  ring

theorem eq_of_ofDigits_reverse {w : Nat} (hw : 0 < w) {ds ds' : List Nat} (hlen : ds.length = ds'.length) (hlt : ∀ d ∈ ds, d < 2 ^ w)
    (hlt' : ∀ d ∈ ds', d < 2 ^ w) (h : Nat.ofDigits (2 ^ w) ds.reverse = Nat.ofDigits (2 ^ w) ds'.reverse) : ds = ds' := by
  apply List.reverse_injective
  refine Nat.ofDigits_inj_of_len_eq (Nat.one_lt_two_pow hw.ne') (by simpa using hlen) ?_ ?_ h
  · exact fun d hd => hlt d (List.mem_reverse.mp hd)
  · exact fun d hd => hlt' d (List.mem_reverse.mp hd)

namespace Packed

theorem nil : Packed w v [] [] 0 0 := ⟨rfl, rfl, Nat.one_pos, by simp, by simp⟩

theorem push (h : Packed w v source target r x) (hd : d < 2 ^ w) : Packed w v (source ++ [d]) target (r + w) (x * 2 ^ w + d) := by
  refine ⟨?_, ?_, ?_, ?_, h.target_lt⟩
  · rw [List.length_append, List.length_singleton, Nat.mul_succ, h.bits, Nat.add_assoc]
  · rw [ofDigits_reverse_concat, h.value]
    ring
  · calc x * 2 ^ w + d < x * 2 ^ w + 2 ^ w := Nat.add_lt_add_left hd _
      _ = (x + 1) * 2 ^ w := by ring
      _ ≤ 2 ^ r * 2 ^ w := Nat.mul_le_mul_right _ h.pending_lt
      _ = 2 ^ (r + w) := (Nat.pow_add 2 r w).symm
  · simpa [or_imp, forall_and] using ⟨h.source_lt, hd⟩

theorem pop (h : Packed w v source target (r + v) (y * 2 ^ r + x)) (hx : x < 2 ^ r) : Packed w v source (target ++ [y]) r x := by
  have hy : y < 2 ^ v := by
    have hlt := h.pending_lt
    rw [Nat.pow_add, Nat.mul_comm (2 ^ r)] at hlt
    exact Nat.lt_of_mul_lt_mul_right ((Nat.le_add_right _ x).trans_lt hlt)
  refine ⟨?_, ?_, hx, h.source_lt, ?_⟩
  · rw [h.bits, List.length_append, List.length_singleton, Nat.mul_succ]
    omega
  · rw [h.value, ofDigits_reverse_concat]
    ring
  · simpa [or_imp, forall_and] using ⟨h.target_lt, hy⟩

theorem pop_high (r : Nat) (h : Packed w v source target (v + r) x) : Packed w v source (target ++ [x / 2 ^ r]) r (x % 2 ^ r) := by
  rw [← Nat.div_add_mod' x (2 ^ r), Nat.add_comm v r] at h
  exact h.pop (Nat.mod_lt x (Nat.two_pow_pos r))

theorem pop_all (h : Packed w v source target v x) : Packed w v source (target ++ [x]) 0 0 := by
  have hpop := @pop_high w v x source target 0 h
  rwa [Nat.pow_zero, Nat.div_one, Nat.mod_one] at hpop

theorem fill {k m : Nat} (h : Packed (k + m) v source target r x) (hd : d < 2 ^ (k + m)) (hr : r + k = v) :
    Packed (k + m) v (source ++ [d]) (target ++ [x <<< k ||| d >>> m]) m (d % 2 ^ m) := by
  have hhigh : d >>> m < 2 ^ k := by
    rw [Nat.shiftRight_eq_div_pow]
    exact Nat.div_lt_of_lt_mul (by rwa [← Nat.pow_add, Nat.add_comm m])
  have hsplit : x * 2 ^ (k + m) + d = (x <<< k ||| d >>> m) * 2 ^ m + d % 2 ^ m := by
    have hdiv := Nat.div_add_mod' d (2 ^ m)
    rw [← Nat.shiftLeft_add_eq_or_of_lt hhigh, Nat.shiftLeft_eq, Nat.shiftRight_eq_div_pow, Nat.pow_add, Nat.add_mul, Nat.add_assoc, hdiv,
      Nat.mul_assoc]
  have hpush := h.push hd
  rw [hsplit, ← Nat.add_assoc, hr, Nat.add_comm v m] at hpush
  exact hpush.pop (Nat.mod_lt d (Nat.two_pow_pos m))

theorem symm (h : Packed w v source target 0 0) : Packed v w target source 0 0 :=
  ⟨h.bits.symm, by simpa using h.value.symm, Nat.one_pos, h.target_lt, h.source_lt⟩

theorem pad (h : Packed w v source target r x) (hr : r ≤ v) : Packed v w (target ++ [x * 2 ^ (v - r)]) source (v - r) 0 := by
  have hsplit : 2 ^ v = 2 ^ r * 2 ^ (v - r) := by rw [← Nat.pow_add, Nat.add_sub_cancel' hr]
  have hlast : x * 2 ^ (v - r) < 2 ^ v := by
    rw [hsplit]
    exact Nat.mul_lt_mul_of_pos_right h.pending_lt (Nat.two_pow_pos _)
  refine ⟨?_, ?_, Nat.two_pow_pos _, ?_, h.source_lt⟩
  · rw [List.length_append, List.length_singleton, Nat.mul_succ, h.bits]
    omega
  · rw [ofDigits_reverse_concat, h.value, hsplit]
    ring
  · simpa [or_imp, forall_and] using ⟨h.target_lt, hlast⟩

theorem unique (h : Packed w v source target r x) (h' : Packed w v source target' r' x') (hr : r < v) (hr' : r' < v) :
    target = target' ∧ r = r' ∧ x = x' := by
  have hbits : v * target.length + r = v * target'.length + r' := h.bits.symm.trans h'.bits
  have hsame : r = r' := by
    have hmod := congrArg (· % v) hbits
    simpa [Nat.mul_add_mod, Nat.mod_eq_of_lt hr, Nat.mod_eq_of_lt hr'] using hmod
  subst hsame
  have hlen : target.length = target'.length := Nat.eq_of_mul_eq_mul_left (Nat.zero_lt_of_lt hr) (Nat.add_right_cancel hbits)
  have hvalue : Nat.ofDigits (2 ^ v) target.reverse * 2 ^ r + x = Nat.ofDigits (2 ^ v) target'.reverse * 2 ^ r + x' :=
    h.value.symm.trans h'.value
  have hpending : x = x' := by
    have hmod := congrArg (· % 2 ^ r) hvalue
    simpa [Nat.mul_add_mod', Nat.mod_eq_of_lt h.pending_lt, Nat.mod_eq_of_lt h'.pending_lt] using hmod
  subst hpending
  have hnumber := Nat.eq_of_mul_eq_mul_right (Nat.two_pow_pos r) (Nat.add_right_cancel hvalue)
  exact ⟨eq_of_ofDigits_reverse (Nat.zero_lt_of_lt hr) hlen h.target_lt h'.target_lt hnumber, rfl, rfl⟩

theorem source_length_le (h : Packed w v source target r x) (h' : Packed w v source' target r' x') (hr' : r' < w) :
    source'.length ≤ source.length := by
  have hlt : w * source'.length < w * (source.length + 1) := by
    rw [h'.bits, Nat.mul_succ, h.bits]
    omega
  exact Nat.le_of_lt_succ (Nat.lt_of_mul_lt_mul_left hlt)

theorem source_unique (h : Packed w v source target r 0) (h' : Packed w v source' target r' 0) (hr : r < w) (hr' : r' < w) :
    source = source' := by
  have hlen : source.length = source'.length := le_antisymm (h'.source_length_le h hr) (h.source_length_le h' hr')
  have hsame : r = r' := Nat.add_left_cancel (h.bits.symm.trans (hlen ▸ h'.bits))
  subst hsame
  exact eq_of_ofDigits_reverse (Nat.zero_lt_of_lt hr) hlen h.source_lt h'.source_lt (h.value.trans h'.value.symm)

end Packed

end DigiWage.Lib
