import Mathlib.Data.List.Count
import Mathlib.Logic.Function.Basic
import Mathlib.Algebra.Order.Group.Nat
import Mathlib.Tactic.Common

/-!
# Tables

A table gives each of some places an entry, and an entry may stand at several places. `occurs` counts these.

* `Takes.foldlM_ok` and `Takes.exists_ok`: a loop over the places that takes one off the count of each entry it meets, and
  fails where the count is used up or a place is wrong, succeeds exactly when all places are right and no entry occurs more
  often than it is counted; what is left is the difference.
-/

namespace DigiWage.Lib

variable {ι β : Type*} [DecidableEq β]

/-- How often `b` stands at the places of `l` in the table `f`. -/
def occurs (l : List ι) (f : ι → β) (b : β) : Nat := (l.map f).count b

@[simp] theorem occurs_nil (f : ι → β) (b : β) : occurs [] f b = 0 := rfl

theorem occurs_cons (p : ι) (l : List ι) (f : ι → β) (b : β) :
    occurs (p :: l) f b = occurs l f b + if f p = b then 1 else 0 := by
  simp [occurs, List.count_cons]

theorem occurs_pos {l : List ι} {f : ι → β} {b : β} : 0 < occurs l f b ↔ ∃ p ∈ l, f p = b := by
  simp [occurs, List.count_pos_iff]

theorem occurs_eq_zero {l : List ι} {f : ι → β} {b : β} : occurs l f b = 0 ↔ ∀ p ∈ l, f p ≠ b := by
  simp [occurs, List.count_eq_zero]

theorem occurs_congr {γ : Type*} [DecidableEq γ] {l : List ι} {f : ι → β} {g : ι → γ} {b : β} {c : γ}
    (h : ∀ p ∈ l, f p = b ↔ g p = c) : occurs l f b = occurs l g c := by
  induction l with
  | nil => rfl
  | cons p l ih =>
    rw [occurs_cons, occurs_cons, ih fun q hq => h q (List.mem_cons_of_mem p hq)]
    simp only [h p List.mem_cons_self]

theorem occurs_append (l l' : List ι) (f : ι → β) (b : β) : occurs (l ++ l') f b = occurs l f b + occurs l' f b := by
  simp [occurs]

theorem occurs_filter {P : ι → Bool} (l : List ι) (f : ι → β) {b : β} (hP : ∀ p, f p = b → P p = true) :
    occurs (l.filter P) f b = occurs l f b := by
  induction l with
  | nil => rfl
  | cons p l ih =>
    by_cases hp : P p = true
    · rw [List.filter_cons_of_pos hp, occurs_cons, occurs_cons, ih]
    · rw [List.filter_cons_of_neg hp, occurs_cons, ih, if_neg fun he => hp (hP p he), Nat.add_zero]

theorem occurs_update_of_notMem [DecidableEq ι] {l : List ι} {p : ι} (hp : p ∉ l) (f : ι → β) (b b' : β) :
    occurs l (Function.update f p b) b' = occurs l f b' := by
  unfold occurs
  congr 1
  apply List.map_congr_left
  intro q hq
  exact Function.update_of_ne (ne_of_mem_of_not_mem hq hp) _ _

theorem occurs_update [DecidableEq ι] {l : List ι} (hl : l.Nodup) {p : ι} (hp : p ∈ l) (f : ι → β) (b b' : β) :
    occurs l (Function.update f p b) b' + (if f p = b' then 1 else 0) = occurs l f b' + if b = b' then 1 else 0 := by
  induction l with
  | nil => cases hp
  | cons q l ih =>
    obtain ⟨hq, hl⟩ := List.nodup_cons.mp hl
    rw [occurs_cons, occurs_cons]
    rcases List.mem_cons.mp hp with rfl | hp
    · rw [occurs_update_of_notMem hq, Function.update_self]
      omega
    · rw [Function.update_of_ne (ne_of_mem_of_not_mem hp hq).symm]
      have := ih hl hp
      omega

/-- The steps of a loop over places: a place with no entry is passed over, and a right place takes one off the count of its
entry, which must not be used up. The states of the loop may have an invariant. -/
structure Takes {σ ε : Type*} (valid : σ → Prop) (entry : ι → Option β) (right : ι → Prop) (count : σ → β → Nat)
    (step : σ → ι → Except ε σ) : Prop where
  skip : ∀ s p, entry p = none → step s p = .ok s
  take : ∀ s p b, valid s → entry p = some b → right p → 0 < count s b →
    ∃ s', step s p = .ok s' ∧ valid s' ∧ ∀ b', count s b' = count s' b' + if b = b' then 1 else 0
  fail : ∀ s p b s', valid s → entry p = some b → step s p = .ok s' → right p ∧ 0 < count s b

namespace Takes

variable {σ ε : Type*} {valid : σ → Prop} {entry : ι → Option β} {right : ι → Prop} {count : σ → β → Nat}
  {step : σ → ι → Except ε σ}

theorem foldlM_ok (h : Takes valid entry right count step) (l : List ι) {s s' : σ} (hv : valid s)
    (hs : l.foldlM step s = .ok s') :
    valid s' ∧ (∀ p ∈ l, entry p ≠ none → right p) ∧ ∀ b, count s b = occurs l entry (some b) + count s' b := by
  induction l generalizing s with
  | nil =>
    cases hs
    simpa using hv
  | cons p l ih =>
    rw [List.foldlM_cons] at hs
    cases hstep : step s p with
    | error e =>
      rw [hstep] at hs
      cases hs
    | ok s1 =>
      rw [hstep] at hs
      cases hp : entry p with
      | none =>
        cases (h.skip s p hp).symm.trans hstep
        obtain ⟨hv', hright, hcount⟩ := ih hv hs
        exact ⟨hv', by simpa [hp] using hright, fun b => by rw [occurs_cons, hp]; simpa using hcount b⟩
      | some b =>
        obtain ⟨hr, hpos⟩ := h.fail s p b s1 hv hp hstep
        obtain ⟨s2, hs2, hv2, htake⟩ := h.take s p b hv hp hr hpos
        cases hs2.symm.trans hstep
        obtain ⟨hv', hright, hcount⟩ := ih hv2 hs
        refine ⟨hv', by simpa [hr] using hright, fun b' => ?_⟩
        rw [occurs_cons, hp, htake, hcount]
        simp only [Option.some.injEq]
        omega

theorem exists_ok (h : Takes valid entry right count step) (l : List ι) {s : σ} (hv : valid s)
    (hright : ∀ p ∈ l, entry p ≠ none → right p) (hcount : ∀ b, occurs l entry (some b) ≤ count s b) :
    ∃ s', l.foldlM step s = .ok s' := by
  induction l generalizing s with
  | nil => exact ⟨s, rfl⟩
  | cons p l ih =>
    rw [List.foldlM_cons]
    simp only [occurs_cons] at hcount
    cases hp : entry p with
    | none =>
      rw [h.skip s p hp]
      exact ih hv (fun q hq => hright q (List.mem_cons_of_mem p hq)) fun b => by simpa [hp] using hcount b
    | some b =>
      have hb := hcount b
      rw [hp, if_pos rfl] at hb
      obtain ⟨s1, hs1, hv1, htake⟩ := h.take s p b hv hp (hright p List.mem_cons_self (by simp [hp])) (by omega)
      rw [hs1]
      refine ih hv1 (fun q hq => hright q (List.mem_cons_of_mem p hq)) fun b' => ?_
      have := hcount b'
      rw [htake b', hp] at this
      simp only [Option.some.injEq] at this
      omega

end Takes

end DigiWage.Lib
