import Mathlib.Data.Nat.Digits.Lemmas
import Mathlib.Data.List.DropRight
import Mathlib.Tactic.Ring

/-!
# Numerals in another base

A number is carried from base `m` to base `b` digit by digit, in a buffer of a fixed number of digits: the buffer is multiplied by `m`
and the next digit is added (`mulAdd`).

* `convert_eq`: where the buffer is large enough no carry is left over, and the buffer has the digits of the number.
-/

namespace DigiWage.Lib.Radix

variable {m b : Nat}

/-- The digits, the lowest first, times `m` plus a carry, and the carry that is left over. -/
def mulAdd (m b : Nat) : List Nat → Nat → List Nat × Nat
  | [], carry => ([], carry)
  | d :: ds, carry =>
    let carry := carry + m * d
    let r := mulAdd m b ds (carry / b)
    (carry % b :: r.1, r.2)

/-- The digits of a numeral, the highest first, go into the buffer; `none` where a carry is left over. -/
def convert (m b : Nat) : List Nat → List Nat → Option (List Nat)
  | [], buffer => some buffer
  | d :: ds, buffer =>
    let r := mulAdd m b buffer d
    if r.2 = 0 then convert m b ds r.1 else none

theorem length_mulAdd : ∀ (ds : List Nat) (carry : Nat), (mulAdd m b ds carry).1.length = ds.length
  | [], _ => rfl
  | _ :: ds, _ => congrArg (· + 1) (length_mulAdd ds _)

theorem mulAdd_lt (hb : 0 < b) : ∀ (ds : List Nat) (carry : Nat), ∀ d ∈ (mulAdd m b ds carry).1, d < b
  | [], _, d, h => by cases h
  | d :: ds, carry, e, h => by
    rcases List.mem_cons.mp h with rfl | h
    · exact Nat.mod_lt _ hb
    · exact mulAdd_lt hb ds _ e h

theorem ofDigits_mulAdd : ∀ (ds : List Nat) (carry : Nat),
    Nat.ofDigits b (mulAdd m b ds carry).1 + (mulAdd m b ds carry).2 * b ^ ds.length = m * Nat.ofDigits b ds + carry
  | [], carry => by simp [mulAdd]
  | d :: ds, carry => by
    have ih := ofDigits_mulAdd ds ((carry + m * d) / b)
    have hsplit := Nat.mod_add_div (carry + m * d) b
    rw [mulAdd, Nat.ofDigits_cons, Nat.ofDigits_cons, List.length_cons, pow_succ]
    calc (carry + m * d) % b + b * Nat.ofDigits b (mulAdd m b ds ((carry + m * d) / b)).1 +
          (mulAdd m b ds ((carry + m * d) / b)).2 * (b ^ ds.length * b)
        = (carry + m * d) % b + b * (Nat.ofDigits b (mulAdd m b ds ((carry + m * d) / b)).1 +
          (mulAdd m b ds ((carry + m * d) / b)).2 * b ^ ds.length) := by ring
      _ = (carry + m * d) % b + b * ((carry + m * d) / b) + b * (m * Nat.ofDigits b ds) := by rw [ih]; ring
      _ = m * (d + b * Nat.ofDigits b ds) + carry := by rw [hsplit]; ring

/-- The number of a numeral that is continued: its digits come after those that made the number `n`. -/
def horner (m : Nat) (n : Nat) (ds : List Nat) : Nat := ds.foldl (fun n d => m * n + d) n

theorem horner_eq (m n : Nat) (ds : List Nat) : horner m n ds = n * m ^ ds.length + Nat.ofDigits m ds.reverse := by
  induction ds generalizing n with
  | nil => simp [horner]
  | cons d ds ih =>
    rw [horner, List.foldl_cons, ← horner, ih, List.reverse_cons, Nat.ofDigits_append, List.length_reverse, Nat.ofDigits_singleton,
      List.length_cons]
    ring

theorem le_horner (hm : 0 < m) (n : Nat) (ds : List Nat) : n ≤ horner m n ds := by
  rw [horner_eq]
  exact (Nat.le_mul_of_pos_right n (Nat.pow_pos hm)).trans (Nat.le_add_right _ _)

theorem convert_spec (hm : 0 < m) (hb : 0 < b) : ∀ (ds buffer : List Nat), (∀ d ∈ buffer, d < b) →
    horner m (Nat.ofDigits b buffer) ds < b ^ buffer.length →
    ∃ buffer', convert m b ds buffer = some buffer' ∧ (∀ d ∈ buffer', d < b) ∧
      Nat.ofDigits b buffer' = horner m (Nat.ofDigits b buffer) ds
  | [], buffer, hlt, _ => ⟨buffer, rfl, hlt, rfl⟩
  | d :: ds, buffer, hlt, hfits => by
    have hsum := @ofDigits_mulAdd m b buffer d
    have hstep : horner m (Nat.ofDigits b buffer) (d :: ds) = horner m (m * Nat.ofDigits b buffer + d) ds := rfl
    rw [hstep] at hfits ⊢
    have hle := le_horner hm (m * Nat.ofDigits b buffer + d) ds
    have hzero : (mulAdd m b buffer d).2 = 0 := by
      by_contra hne
      have hbig : b ^ buffer.length ≤ (mulAdd m b buffer d).2 * b ^ buffer.length := Nat.le_mul_of_pos_left _ (Nat.pos_of_ne_zero hne)
      omega
    rw [hzero, Nat.zero_mul, Nat.add_zero] at hsum
    rw [convert, if_pos hzero, ← hsum]
    exact convert_spec hm hb ds _ (mulAdd_lt hb buffer d) (by rw [length_mulAdd, hsum]; exact hfits)

/-! ## Leading zeros -/

theorem takeWhile_zero (ds : List Nat) : ds.takeWhile (· = 0) = List.replicate (ds.takeWhile (· = 0)).length 0 :=
  List.eq_replicate_of_mem fun d hd => by simpa using List.mem_takeWhile_imp hd

theorem head_dropWhile_ne {ds : List Nat} (h : ds.dropWhile (· = 0) ≠ []) : (ds.dropWhile (· = 0)).head h ≠ 0 := by
  have hhead := List.head_dropWhile_not (fun d : Nat => decide (d = 0)) h
  simpa using hhead

theorem ofDigits_dropWhile (b : Nat) (ds : List Nat) : Nat.ofDigits b (ds.dropWhile (· = 0)).reverse = Nat.ofDigits b ds.reverse := by
  conv_rhs => rw [← List.takeWhile_append_dropWhile (p := (· = 0)) (l := ds), takeWhile_zero, List.reverse_append, List.reverse_replicate,
    Nat.ofDigits_append_replicate_zero]

theorem dropWhile_zero (hb : 1 < b) {ds : List Nat} (hlt : ∀ d ∈ ds, d < b) :
    ds.dropWhile (· = 0) = (b.digits (Nat.ofDigits b ds.reverse)).reverse := by
  have hcanon := Nat.digits_ofDigits b hb (ds.dropWhile (· = 0)).reverse
    (fun d hd => hlt d ((List.dropWhile_sublist _).subset (List.mem_reverse.mp hd))) (fun h => by
      rw [List.getLast_reverse]
      exact head_dropWhile_ne (by simpa using h))
  rw [← ofDigits_dropWhile, hcanon, List.reverse_reverse]

theorem dropWhile_digits (hb : 1 < b) (n : Nat) : (b.digits n).reverse.dropWhile (· = 0) = (b.digits n).reverse := by
  rw [dropWhile_zero hb fun d hd => Nat.digits_lt_base hb (List.mem_reverse.mp hd), List.reverse_reverse, Nat.ofDigits_digits]

/-- A numeral in base `m`, the highest digit first, as one in base `b`; leading zeros are carried over one by one. -/
def recode (m b : Nat) (ds : List Nat) : List Nat :=
  ds.takeWhile (· = 0) ++ (b.digits (Nat.ofDigits m (ds.dropWhile (· = 0)).reverse)).reverse

theorem recode_lt (hb : 1 < b) {ds : List Nat} : ∀ d ∈ recode m b ds, d < b := by
  intro d hd
  rcases List.mem_append.mp hd with hd | hd
  · have hzero : d = 0 := by simpa using List.mem_takeWhile_imp hd
    omega
  · exact Nat.digits_lt_base hb (List.mem_reverse.mp hd)

/-- Recoding has an inverse. -/
theorem recode_recode (hm : 1 < m) (hb : 1 < b) {ds : List Nat} (hlt : ∀ d ∈ ds, d < m) : recode b m (recode m b ds) = ds := by
  have hzeros : ∀ d ∈ ds.takeWhile (· = 0), decide (d = 0) = true := fun d hd => by
    simpa using List.mem_takeWhile_imp hd
  have hdrop : (recode m b ds).dropWhile (· = 0) = (b.digits (Nat.ofDigits m (ds.dropWhile (· = 0)).reverse)).reverse := by
    rw [recode, List.dropWhile_append_of_pos hzeros, dropWhile_digits hb]
  have htake : (recode m b ds).takeWhile (· = 0) = ds.takeWhile (· = 0) := by
    have happend := List.takeWhile_append_dropWhile (p := (· = 0)) (l := recode m b ds)
    rw [hdrop, recode] at happend
    exact List.append_cancel_right happend
  rw [recode, htake, hdrop, List.reverse_reverse, Nat.ofDigits_digits, ofDigits_dropWhile, ← dropWhile_zero hm hlt,
    List.takeWhile_append_dropWhile]

theorem convert_eq (hm : 0 < m) (hb : 1 < b) {ds : List Nat} {size : Nat} (hfits : Nat.ofDigits m ds.reverse < b ^ size) :
    ∃ buffer, convert m b ds (List.replicate size 0) = some buffer ∧
      buffer.reverse.dropWhile (· = 0) = (b.digits (Nat.ofDigits m ds.reverse)).reverse := by
  have hhorner : horner m (Nat.ofDigits b (List.replicate size 0)) ds = Nat.ofDigits m ds.reverse := by
    rw [Nat.ofDigits_replicate_zero, horner_eq, Nat.zero_mul, Nat.zero_add]
  obtain ⟨buffer, heq, hlt, hnum⟩ := @convert_spec m b hm (by omega) ds (List.replicate size 0)
    (fun d hd => by rw [List.eq_of_mem_replicate hd]; omega) (by rw [hhorner, List.length_replicate]; exact hfits)
  refine ⟨buffer, heq, ?_⟩
  rw [dropWhile_zero hb fun d hd => hlt d (List.mem_reverse.mp hd), List.reverse_reverse, hnum, hhorner]

end DigiWage.Lib.Radix
