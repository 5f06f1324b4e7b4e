import Mathlib.Order.Basic
import Mathlib.Data.List.Sort

/-!
# Samples

* `CircularBuffer`: the last values that were pushed, up to a capacity.
* `descending`: a list sorted with the greatest value first. What stands later is not greater (`getElem_descending_le`).
-/

namespace DigiWage.Lib

/-- A buffer that forgets the oldest value when it is full. -/
structure CircularBuffer (A : Type) (capacity : Nat) where
  values : List A
  length_le : values.length ≤ capacity

namespace CircularBuffer

variable {A : Type} {capacity : Nat}

def empty : CircularBuffer A capacity := ⟨[], Nat.zero_le capacity⟩

def pushBack (buffer : CircularBuffer A capacity) (x : A) : CircularBuffer A capacity where
  values := (buffer.values ++ [x]).drop (buffer.values.length + 1 - capacity)
  length_le := by
    simp only [List.length_drop, List.length_append, List.length_singleton]
    omega

end CircularBuffer

variable {A : Type} [LinearOrder A]

/-- The values, the greatest first. -/
def descending (l : List A) : List A := l.mergeSort fun a b => decide (b ≤ a)

@[simp] theorem length_descending (l : List A) : (descending l).length = l.length := List.length_mergeSort l

@[simp] theorem mem_descending {l : List A} {x : A} : x ∈ descending l ↔ x ∈ l := List.mem_mergeSort

theorem pairwise_descending (l : List A) : (descending l).Pairwise fun a b => b ≤ a := by
  have htrans : ∀ a b c : A, decide (b ≤ a) = true → decide (c ≤ b) = true → decide (c ≤ a) = true := by
    intro a b c hab hbc
    simp only [decide_eq_true_eq] at hab hbc ⊢
    exact hbc.trans hab
  have htotal : ∀ a b : A, (decide (b ≤ a) || decide (a ≤ b)) = true := by
    intro a b
    simpa using le_total b a
  have h := List.pairwise_mergeSort htrans htotal l
  simpa [descending] using h

/-- Later values are not greater. -/
theorem getElem_descending_le {l : List A} {i j : Nat} {x y : A} (hij : i ≤ j) (hx : (descending l)[i]? = some x)
    (hy : (descending l)[j]? = some y) : y ≤ x := by
  obtain ⟨hi, rfl⟩ := List.getElem?_eq_some_iff.mp hx
  obtain ⟨hj, rfl⟩ := List.getElem?_eq_some_iff.mp hy
  rcases Nat.lt_or_eq_of_le hij with hlt | rfl
  · exact List.pairwise_iff_getElem.mp (pairwise_descending l) i j hi hj hlt
  · exact le_refl _

theorem middle_of_majority {l s : List A} {a b : A} {k : Nat} (hsorted : s.Pairwise (· ≤ ·)) (hperm : s.Perm l)
    (hlen : l.length = 2 * k + 1) (hcount : k < l.countP fun x => decide (a ≤ x ∧ x ≤ b)) :
    ∃ x, s[k]? = some x ∧ a ≤ x ∧ x ≤ b := by
  have hslen : s.length = 2 * k + 1 := hperm.length_eq.trans hlen
  have hk : k < s.length := by omega
  refine ⟨s[k], List.getElem?_eq_getElem hk, ?_⟩
  have hsplit : s = s.take k ++ s[k] :: s.drop (k + 1) := by
    rw [List.getElem_cons_drop, List.take_append_drop]
  rw [← hperm.countP_eq, hsplit, List.countP_append] at hcount
  rw [hsplit, List.pairwise_append, List.pairwise_cons] at hsorted
  obtain ⟨-, ⟨hafter, -⟩, hbefore⟩ := hsorted
  by_contra hout
  rw [List.countP_cons_of_neg (by simpa using hout)] at hcount
  rcases not_and_or.mp hout with hlow | hhigh
  · -- no value before the middle is in the range
    have hzero : (s.take k).countP (fun x => decide (a ≤ x ∧ x ≤ b)) = 0 := by
      refine List.countP_eq_zero.mpr fun x hx hin => ?_
      exact hlow ((of_decide_eq_true hin).1.trans (hbefore x hx _ List.mem_cons_self))
    have hle := List.countP_le_length (p := fun x => decide (a ≤ x ∧ x ≤ b)) (l := s.drop (k + 1))
    rw [List.length_drop] at hle
    omega
  · have hzero : (s.drop (k + 1)).countP (fun x => decide (a ≤ x ∧ x ≤ b)) = 0 := by
      refine List.countP_eq_zero.mpr fun x hx hin => ?_
      exact hhigh ((hafter x hx).trans (of_decide_eq_true hin).2)
    have hle := List.countP_le_length (p := fun x => decide (a ≤ x ∧ x ≤ b)) (l := s.take k)
    rw [List.length_take] at hle
    omega

end DigiWage.Lib
