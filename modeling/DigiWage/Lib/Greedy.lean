import Mathlib.Algebra.Order.Group.Defs
import Mathlib.Algebra.BigOperators.Group.List.Basic
import Mathlib.Order.Lattice

/-!
# Greedy selection

From a list of items in their order of rank, each is taken whose cost fits into what the items taken before it leave of
a limit.

* `allot_append`: what is taken of a list is what is taken of its beginning, and then of the rest with the limit used up
  so far. So an item is taken exactly when it fits after the items ranked before it (`allot_eq_of_fits`).
-/

namespace DigiWage.Lib

variable {A M : Type*} [AddCommMonoid M]

/-- The cost of a list of items. -/
def totalCost (cost : A → M) (l : List A) : M := (l.map cost).sum

variable {cost : A → M} {limit : M}

@[simp] theorem totalCost_nil : totalCost cost [] = 0 := rfl

@[simp] theorem totalCost_cons (a : A) (l : List A) : totalCost cost (a :: l) = cost a + totalCost cost l := by
  simp [totalCost]

variable [LinearOrder M]

/-- The items of a list that are taken when `used` of the limit is used up. -/
def allot (cost : A → M) (limit : M) : List A → M → List A
  | [], _ => []
  | a :: l, used => if cost a + used ≤ limit then a :: allot cost limit l (used + cost a) else allot cost limit l used

theorem allot_cons_of_le {a : A} {l : List A} {used : M} (h : cost a + used ≤ limit) :
    allot cost limit (a :: l) used = a :: allot cost limit l (used + cost a) := if_pos h

theorem allot_cons_of_not_le {a : A} {l : List A} {used : M} (h : ¬ cost a + used ≤ limit) :
    allot cost limit (a :: l) used = allot cost limit l used := if_neg h

theorem allot_sublist (l : List A) : ∀ used : M, (allot cost limit l used).Sublist l := by
  induction l with
  | nil => exact fun _ => .slnil
  | cons a l ih =>
    intro used
    by_cases h : cost a + used ≤ limit
    · rw [allot_cons_of_le h]
      exact (ih _).cons_cons a
    · rw [allot_cons_of_not_le h]
      exact (ih _).cons a

theorem allot_append (l₁ l₂ : List A) : ∀ used : M, allot cost limit (l₁ ++ l₂) used =
    allot cost limit l₁ used ++ allot cost limit l₂ (used + totalCost cost (allot cost limit l₁ used)) := by
  induction l₁ with
  | nil => simp [allot]
  | cons a l₁ ih =>
    intro used
    rw [List.cons_append]
    by_cases h : cost a + used ≤ limit
    · rw [allot_cons_of_le h, allot_cons_of_le h, ih, List.cons_append, totalCost_cons, add_assoc]
    · rw [allot_cons_of_not_le h, allot_cons_of_not_le h, ih]

theorem allot_eq_of_fits {l₁ l₂ : List A} {a : A} {used : M}
    (h : cost a + (used + totalCost cost (allot cost limit l₁ used)) ≤ limit) : ∃ l,
      allot cost limit (l₁ ++ a :: l₂) used = allot cost limit l₁ used ++ a :: l := by
  rw [allot_append, allot_cons_of_le h]
  exact ⟨_, rfl⟩

theorem add_cost_allot_le (l : List A) : ∀ {used : M}, used ≤ limit →
    used + totalCost cost (allot cost limit l used) ≤ limit := by
  induction l with
  | nil => simp [allot]
  | cons a l ih =>
    intro used hused
    by_cases h : cost a + used ≤ limit
    · rw [allot_cons_of_le h, totalCost_cons, ← add_assoc]
      exact ih (by rwa [add_comm])
    · rw [allot_cons_of_not_le h]
      exact ih hused

end DigiWage.Lib
