import DigiWage.Lib.Fallible

/-!
# Computations with faults

A computation whose failures are either answers or faults, against one that has answers only.

* `Matches answer x y`: `x` ends as `y` does. A failure of `x` that is no answer, a fault, matches nothing, so that a
  computation that matches another has no faults (`Matches.no_fault`).
* Sequences and tests keep it.
-/

namespace DigiWage.Lib

/-- `x` ends as `y` does, and not in a fault. -/
def Matches {E E' A : Type} (answer : E → Option E') : Except E A → Except E' A → Prop
  | .ok a, .ok b => a = b
  | .error e, .error e' => answer e = some e'
  | _, _ => False

namespace Matches

variable {E E' A B : Type} {answer : E → Option E'} {x : Except E A} {y : Except E' A}

theorem ok (a : A) : Matches answer (.ok a) (.ok a) := rfl

theorem bind {f : A → Except E B} {g : A → Except E' B} (h : Matches answer x y)
    (hf : ∀ a, y = .ok a → Matches answer (f a) (g a)) : Matches answer (x >>= f) (y >>= g) := by
  cases x with
  | error e =>
    cases y with
    | error e' => exact h
    | ok b => cases h
  | ok a =>
    cases y with
    | error e' => cases h
    | ok b =>
      obtain rfl : a = b := h
      exact hf a rfl

theorem ite {p : Prop} [Decidable p] {x' : Except E A} {y' : Except E' A} (h : p → Matches answer x y)
    (h' : ¬ p → Matches answer x' y') : Matches answer (if p then x else x') (if p then y else y') := by
  by_cases hp : p
  · rw [if_pos hp, if_pos hp]
    exact h hp
  · rw [if_neg hp, if_neg hp]
    exact h' hp

theorem no_fault {e : E} (h : Matches answer x y) (he : answer e = none) : x ≠ .error e := by
  rintro rfl
  cases y with
  | ok b => cases h
  | error e' =>
    have hsome : answer e = some e' := h
    rw [he] at hsome
    cases hsome

theorem ok_iff {a : A} (h : Matches answer x y) : x = .ok a ↔ y = .ok a := by
  cases x with
  | error e =>
    cases y with
    | error e' =>
      constructor
      · rintro ⟨⟩
      · rintro ⟨⟩
    | ok b => cases h
  | ok a' =>
    cases y with
    | error e' => cases h
    | ok b =>
      obtain rfl : a' = b := h
      rw [Except.ok.injEq, Except.ok.injEq]

end Matches

end DigiWage.Lib
