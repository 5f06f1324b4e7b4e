import Mathlib.Tactic.Common

/-!
# Computations that may fail

Computations in `Except`, compared by what they accept.

* `bind_eq_ok` takes a successful sequence apart, `guard_eq_ok` a test that has passed.
* `Restricts x y`: where `x` succeeds, `y` succeeds with the same result. Sequences (`Restricts.bind`) and tests that fail
  more often on the left (`Restricts.guard`) keep it.
* `Ensures x P`: where `x` succeeds, its result has the property.
-/

namespace DigiWage.Lib

variable {E A B : Type}

theorem ok_bind (a : A) (f : A → Except E B) : (Except.ok a >>= f) = f a := rfl

theorem bind_eq_ok {x : Except E A} {f : A → Except E B} {b : B} (h : (x >>= f) = .ok b) :
    ∃ a, x = .ok a ∧ f a = .ok b := by
  cases x with
  | error e => cases h
  | ok a => exact ⟨a, rfl, h⟩

theorem bind_eq_ok_iff {x : Except E A} {f : A → Except E B} {b : B} :
    (x >>= f) = .ok b ↔ ∃ a, x = .ok a ∧ f a = .ok b :=
  ⟨bind_eq_ok, fun ⟨a, ha, hb⟩ => by rw [ha]; exact hb⟩

theorem guard_eq_ok {p : Prop} [Decidable p] {e : E} {x : Except E A} {a : A} :
    (if p then .error e else x) = .ok a ↔ ¬ p ∧ x = .ok a := by
  by_cases hp : p
  · simp [hp]
  · simp [hp]

theorem foldlM_eq_ok {S : Type} {step : S → A → Except E S} {fine : A → Prop} {next : S → A → S}
    (hstep : ∀ s a s', step s a = .ok s' ↔ fine a ∧ s' = next s a) (l : List A) (s s' : S) :
    l.foldlM step s = .ok s' ↔ (∀ a ∈ l, fine a) ∧ s' = l.foldl next s := by
  induction l generalizing s with
  | nil => simpa [pure, Except.pure] using eq_comm
  | cons a l ih =>
    rw [List.foldlM_cons, bind_eq_ok_iff, List.foldl_cons, List.forall_mem_cons]
    constructor
    · rintro ⟨s1, h1, h2⟩
      obtain ⟨hfine, rfl⟩ := (hstep s a s1).mp h1
      obtain ⟨hrest, hs'⟩ := (ih _).mp h2
      exact ⟨⟨hfine, hrest⟩, hs'⟩
    · rintro ⟨⟨hfine, hrest⟩, hs'⟩
      exact ⟨next s a, (hstep s a _).mpr ⟨hfine, rfl⟩, (ih _).mpr ⟨hrest, hs'⟩⟩

/-- Where `x` succeeds, `y` succeeds with the same result. -/
def Restricts (x y : Except E A) : Prop := ∀ a, x = .ok a → y = .ok a

namespace Restricts

theorem refl (x : Except E A) : Restricts x x := fun _ h => h

theorem of_error (e : E) (y : Except E A) : Restricts (.error e) y := by
  intro a h
  cases h

theorem bind {x y : Except E A} {f g : A → Except E B} (h : Restricts x y) (hf : ∀ a, Restricts (f a) (g a)) :
    Restricts (x >>= f) (y >>= g) := by
  intro b hb
  obtain ⟨a, ha, hfa⟩ := bind_eq_ok hb
  rw [h a ha]
  exact hf a b hfa

theorem guard {p q : Prop} [Decidable p] [Decidable q] {e e' : E} {x y : Except E A} (hpq : q → p) (h : Restricts x y) :
    Restricts (if p then .error e else x) (if q then .error e' else y) := by
  by_cases hp : p
  · rw [if_pos hp]
    exact of_error e _
  · rw [if_neg hp, if_neg fun hq => hp (hpq hq)]
    exact h

theorem ite {p : Prop} [Decidable p] {x y x' y' : Except E A} (h : p → Restricts x y) (h' : ¬ p → Restricts x' y') :
    Restricts (if p then x else x') (if p then y else y') := by
  by_cases hp : p
  · rw [if_pos hp, if_pos hp]
    exact h hp
  · rw [if_neg hp, if_neg hp]
    exact h' hp

end Restricts

/-- Where `x` succeeds, its result has the property. -/
def Ensures (x : Except E A) (P : A → Prop) : Prop := ∀ a, x = .ok a → P a

namespace Ensures

variable {P : A → Prop} {Q : B → Prop}

theorem ok {a : A} (h : P a) : Ensures (.ok a : Except E A) P := by
  rintro a' ⟨⟩
  exact h

theorem error (e : E) : Ensures (.error e) P := by
  rintro a ⟨⟩

theorem bind {x : Except E A} {f : A → Except E B} (hf : ∀ a, x = .ok a → Ensures (f a) Q) : Ensures (x >>= f) Q := by
  intro b hb
  obtain ⟨a, ha, hfa⟩ := bind_eq_ok hb
  exact hf a ha b hfa

theorem ite {p : Prop} [Decidable p] {x y : Except E A} (hx : p → Ensures x P) (hy : ¬ p → Ensures y P) :
    Ensures (if p then x else y) P := by
  by_cases hp : p
  · rw [if_pos hp]
    exact hx hp
  · rw [if_neg hp]
    exact hy hp

end Ensures

end DigiWage.Lib
