import DigiWage.Lib.Fallible

/-!
# Computations that ask

A computation in `Except` together with the questions that it asks on the way, also when it fails.

* The result of a sequence is the sequence of the results (`result_bind`), so that a traced computation can be compared with
  the one that asks nothing.
* `AtMost x n`: at most `n` questions are asked. Sequences add their bounds (`AtMost.bind`).
-/

namespace DigiWage.Lib

/-- A computation with the questions that it asks. -/
structure Traced (Q E A : Type) where
  calls : List Q
  result : Except E A

namespace Traced

variable {Q E A B : Type}

/-- A computation that asks nothing. -/
def lift (x : Except E A) : Traced Q E A := ⟨[], x⟩

/-- A question and its answer. -/
def ask (q : Q) (answer : A) : Traced Q E A := ⟨[q], .ok answer⟩

/-- One computation after the other. Behind a failure nothing is asked. -/
def andThen (x : Traced Q E A) (f : A → Traced Q E B) : Traced Q E B :=
  match x.result with
  | .error e => ⟨x.calls, .error e⟩
  | .ok a => ⟨x.calls ++ (f a).calls, (f a).result⟩

instance : Monad (Traced Q E) where
  pure a := lift (.ok a)
  bind := andThen

@[simp] theorem result_lift (x : Except E A) : (lift x : Traced Q E A).result = x := rfl

@[simp] theorem calls_lift (x : Except E A) : (lift x : Traced Q E A).calls = [] := rfl

@[simp] theorem result_ask (q : Q) (answer : A) : (ask q answer : Traced Q E A).result = .ok answer := rfl

@[simp] theorem result_bind (x : Traced Q E A) (f : A → Traced Q E B) :
    (x >>= f).result = x.result >>= fun a => (f a).result := by
  obtain ⟨calls, result⟩ := x
  cases result <;> rfl

/-- At most `n` questions are asked. -/
def AtMost (x : Traced Q E A) (n : Nat) : Prop := x.calls.length ≤ n

namespace AtMost

theorem lift {x : Except E A} (n : Nat) : AtMost (Traced.lift x : Traced Q E A) n := Nat.zero_le n

theorem ask (q : Q) (answer : A) : AtMost (Traced.ask q answer : Traced Q E A) 1 := Nat.le_refl 1

theorem mono {x : Traced Q E A} {m n : Nat} (h : AtMost x m) (hmn : m ≤ n) : AtMost x n := Nat.le_trans h hmn

/-- A sequence asks what its parts ask. -/
theorem bind {x : Traced Q E A} {f : A → Traced Q E B} {m n : Nat} (hx : AtMost x m)
    (hf : ∀ a, x.result = .ok a → AtMost (f a) n) : AtMost (x >>= f) (m + n) := by
  obtain ⟨calls, result⟩ := x
  cases result with
  | error e => exact Nat.le_trans hx (Nat.le_add_right m n)
  | ok a =>
    have hcalls : (calls ++ (f a).calls).length ≤ m + n := by
      rw [List.length_append]
      exact Nat.add_le_add hx (hf a rfl)
    exact hcalls

theorem lift_bind {x : Except E A} {f : A → Traced Q E B} {n : Nat} (hf : ∀ a, x = .ok a → AtMost (f a) n) :
    AtMost (Traced.lift x >>= f) n := by
  have h := bind (lift 0 : AtMost (Traced.lift x : Traced Q E A) 0) hf
  rwa [Nat.zero_add] at h

theorem ite {p : Prop} [Decidable p] {x y : Traced Q E A} {n : Nat} (hx : p → AtMost x n) (hy : ¬ p → AtMost y n) :
    AtMost (if p then x else y) n := by
  by_cases hp : p
  · rw [if_pos hp]
    exact hx hp
  · rw [if_neg hp]
    exact hy hp

end AtMost

end Traced

end DigiWage.Lib
