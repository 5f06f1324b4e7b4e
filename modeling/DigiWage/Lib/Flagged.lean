import DigiWage.Lib.Greedy
import Mathlib.Algebra.Order.BigOperators.Group.List
import Mathlib.Data.List.Perm.Basic

/-!
# Subsets given by flags

A list of flags stands for a subset of the elements of a list. Setting a flag adds the element to the subset
(`flagged_set_perm`), and its cost to the total (`totalCost_flagged_set`).
-/

namespace DigiWage.Lib

variable {A M : Type*} {a : A} {l : List A} {flags : List Bool} {i : Nat}

/-- The elements whose flag is set. -/
def flagged : List A → List Bool → List A
  | a :: l, f :: flags => if f then a :: flagged l flags else flagged l flags
  | _, _ => []

theorem flagged_sublist : ∀ (l : List A) (flags : List Bool), (flagged l flags).Sublist l
  | [], _ => .slnil
  | _ :: _, [] => List.nil_sublist _
  | a :: l, true :: flags => (flagged_sublist l flags).cons_cons a
  | a :: l, false :: flags => (flagged_sublist l flags).cons a

@[simp] theorem flagged_all : ∀ l : List A, flagged l (List.replicate l.length true) = l
  | [] => rfl
  | a :: l => congrArg (a :: ·) (flagged_all l)

@[simp] theorem flagged_none : ∀ (l : List A) (n : Nat), flagged l (List.replicate n false) = []
  | [], _ => rfl
  | _ :: _, 0 => rfl
  | _ :: l, n + 1 => flagged_none l n

/-- Setting a flag adds the element. -/
theorem flagged_set_perm (ha : l[i]? = some a) (hf : flags[i]? = some false) :
    (flagged l (flags.set i true)).Perm (a :: flagged l flags) := by
  induction l generalizing flags i with
  | nil => cases ha
  | cons b l ih =>
    cases flags with
    | nil => cases hf
    | cons f flags =>
      cases i with
      | zero =>
        cases ha
        cases hf
        exact List.Perm.refl _
      | succ i =>
        have hrest := @ih flags i ha hf
        cases f with
        | true => exact (hrest.cons b).trans (List.Perm.swap a b _)
        | false => exact hrest

variable [AddCommMonoid M] {cost : A → M}

theorem totalCost_perm {l l' : List A} (h : l.Perm l') : totalCost cost l = totalCost cost l' := (h.map cost).sum_eq

/-- Setting a flag adds the cost of the element. -/
theorem totalCost_flagged_set (ha : l[i]? = some a) (hf : flags[i]? = some false) :
    totalCost cost (flagged l (flags.set i true)) = cost a + totalCost cost (flagged l flags) := by
  rw [totalCost_perm (flagged_set_perm ha hf), totalCost_cons]

theorem totalCost_append (l l' : List A) : totalCost cost (l ++ l') = totalCost cost l + totalCost cost l' := by
  rw [totalCost, List.map_append, List.sum_append]
  rfl

variable [PartialOrder M] [IsOrderedAddMonoid M]

theorem totalCost_le_of_sublist {l l' : List A} (h : l.Sublist l') (hcost : ∀ a ∈ l', 0 ≤ cost a) :
    totalCost cost l ≤ totalCost cost l' := by
  apply (h.map cost).sum_le_sum
  intro x hx
  obtain ⟨a, ha, rfl⟩ := List.mem_map.mp hx
  exact hcost a ha

theorem totalCost_nonneg (hcost : ∀ a ∈ l, 0 ≤ cost a) : 0 ≤ totalCost cost l := by
  apply List.sum_nonneg
  intro x hx
  obtain ⟨a, ha, rfl⟩ := List.mem_map.mp hx
  exact hcost a ha

end DigiWage.Lib
