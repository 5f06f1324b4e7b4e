import Mathlib.Data.List.DropRight
import Mathlib.Data.List.GetD
import Mathlib.Tactic.Common

/-!
# Trimmed lists

A list whose absent positions read as a blank `d`, and whose trailing blanks are dropped, is a function with finite
support. `p` tells the blanks; a list is *canonical* when `d` is its only blank (`Canon`), and *trimmed* when it does
not end in a blank (`Trimmed`).

* Trimming does not change what a canonical list reads (`getD_rdropWhile`).
* Trimmed lists that read the same are equal (`Trimmed.ext`).
* `setAt` writes at any position, growing the list with blanks (`getD_setAt`).
-/

namespace DigiWage.Lib

variable {α : Type*} {p : α → Bool} {d : α}

/-- `d` is the only blank of the list. -/
def Canon (p : α → Bool) (d : α) (l : List α) : Prop := ∀ x ∈ l, p x = true → x = d

/-- The list does not end in a blank. -/
def Trimmed (p : α → Bool) (l : List α) : Prop := l.rdropWhile p = l

/-- Write `x` at position `n`, filling up with `d` when the list is shorter. -/
def setAt (d : α) (l : List α) (n : Nat) (x : α) : List α :=
  (if l.length < n + 1 then l ++ List.replicate (n + 1 - l.length) d else l).set n x

/-! ## Reading -/

theorem getD_append_blank (l : List α) (x : α) (hx : x = d) (i : Nat) : (l ++ [x]).getD i d = l.getD i d := by
  subst hx
  rcases Nat.lt_trichotomy i l.length with h | h | h
  · simp [List.getD_eq_getElem?_getD, List.getElem?_append_left h]
  · subst h; simp
  · simp only [List.getD_eq_getElem?_getD]
    rw [List.getElem?_eq_none (by simp; omega), List.getElem?_eq_none (by omega)]

theorem getD_rdropWhile {l : List α} (hc : Canon p d l) (i : Nat) : (l.rdropWhile p).getD i d = l.getD i d := by
  induction l using List.reverseRecOn with
  | nil => rfl
  | append_singleton l x ih =>
    rw [List.rdropWhile_concat]
    split
    · rename_i hx
      rw [ih fun y hy => hc y (List.mem_append_left _ hy), getD_append_blank l x (hc x (by simp) hx)]
    · rfl

theorem map_getD_rdropWhile {β : Type*} {f : α → β} (hf : ∀ x, p x = true → f x = f d) (l : List α) (i : Nat) :
    f ((l.rdropWhile p).getD i d) = f (l.getD i d) := by
  induction l using List.reverseRecOn with
  | nil => rfl
  | append_singleton l x ih =>
    rw [List.rdropWhile_concat]
    split
    · rename_i hx
      rw [ih]
      rcases Nat.lt_trichotomy i l.length with h | h | h
      · rw [List.getD_append _ _ _ _ h]
      · subst h
        rw [List.getD_eq_default _ _ (Nat.le_refl _), List.getD_append_right _ _ _ _ (Nat.le_refl _)]
        simpa using (hf x hx).symm
      · rw [List.getD_eq_default _ _ (by omega), List.getD_eq_default _ _ (by simp; omega)]
    · rfl

theorem getD_set {l : List α} {n : Nat} (hn : n < l.length) (x : α) (i : Nat) :
    (l.set n x).getD i d = if i = n then x else l.getD i d := by
  by_cases h : i = n
  · subst h; simp [List.getD_eq_getElem?_getD, List.getElem?_set_self hn]
  · simp [List.getD_eq_getElem?_getD, List.getElem?_set_ne (Ne.symm h), h]

theorem getD_append_replicate (l : List α) (k i : Nat) : (l ++ List.replicate k d).getD i d = l.getD i d := by
  induction k with
  | zero => simp
  | succ k ih => rw [List.replicate_succ', ← List.append_assoc, getD_append_blank _ d rfl, ih]

/-- Reading after a write. -/
theorem getD_setAt (l : List α) (n : Nat) (x : α) (i : Nat) :
    (setAt d l n x).getD i d = if i = n then x else l.getD i d := by
  unfold setAt
  split
  · rw [getD_set (by simp; omega), getD_append_replicate]
  · rw [getD_set (by omega)]

/-! ## Canonical and trimmed lists -/

theorem Canon.set {l : List α} (hc : Canon p d l) (n : Nat) {x : α} (hx : p x = true → x = d) :
    Canon p d (l.set n x) := by
  intro y hy
  rcases List.mem_or_eq_of_mem_set hy with h | h
  · exact hc y h
  · subst h; exact hx

theorem Canon.setAt {l : List α} (hc : Canon p d l) (n : Nat) {x : α} (hx : p x = true → x = d) :
    Canon p d (setAt d l n x) := by
  unfold Lib.setAt
  split
  · refine Canon.set (fun y hy => ?_) n hx
    rcases List.mem_append.mp hy with h | h
    · exact hc y h
    · exact fun _ => List.eq_of_mem_replicate h
  · exact hc.set n hx

theorem Canon.rdropWhile {l : List α} (hc : Canon p d l) : Canon p d (l.rdropWhile p) :=
  fun x hx => hc x ((List.rdropWhile_prefix p l).subset hx)

theorem trimmed_rdropWhile (l : List α) : Trimmed p (l.rdropWhile p) := List.rdropWhile_idempotent p l

theorem Trimmed.eq_nil {l : List α} (ht : Trimmed p l) (h : l.all p = true) : l = [] := by
  rw [← ht, List.rdropWhile_eq_nil_iff]
  exact fun x hx => List.all_eq_true.mp h x hx

theorem Trimmed.last_not {l : List α} (ht : Trimmed p l) (hl : l ≠ []) : p (l.getD (l.length - 1) d) = false := by
  have h := List.rdropWhile_eq_self_iff.mp ht hl
  have hlen : l.length - 1 < l.length := Nat.sub_lt (List.length_pos_iff.mpr hl) Nat.one_pos
  rw [List.getD_eq_getElem _ _ hlen, ← List.getLast_eq_getElem hl]
  simpa using h

theorem Trimmed.length_le {l₁ l₂ : List α} (hd : p d = true) (h₁ : Trimmed p l₁)
    (h : ∀ i, l₁.getD i d = l₂.getD i d) : l₁.length ≤ l₂.length := by
  by_contra hlt
  have hne : l₁ ≠ [] := by rintro rfl; simp at hlt
  have hlast := h₁.last_not (d := d) hne
  rw [h, List.getD_eq_default _ _ (by omega), hd] at hlast
  cases hlast

/-- Trimmed lists that read the same are equal. -/
theorem Trimmed.ext {l₁ l₂ : List α} (hd : p d = true) (h₁ : Trimmed p l₁) (h₂ : Trimmed p l₂)
    (h : ∀ i, l₁.getD i d = l₂.getD i d) : l₁ = l₂ := by
  have hlen : l₁.length = l₂.length :=
    Nat.le_antisymm (h₁.length_le hd h) (h₂.length_le hd fun i => (h i).symm)
  refine List.ext_getElem hlen fun i hi₁ hi₂ => ?_
  have := h i
  rwa [List.getD_eq_getElem _ _ hi₁, List.getD_eq_getElem _ _ hi₂] at this

theorem all_iff_getD (hd : p d = true) (l : List α) : l.all p = true ↔ ∀ i, p (l.getD i d) = true := by
  rw [List.all_eq_true]
  constructor
  · intro h i
    rcases Nat.lt_or_ge i l.length with hi | hi
    · rw [List.getD_eq_getElem _ _ hi]; exact h _ (List.getElem_mem hi)
    · rw [List.getD_eq_default _ _ hi]; exact hd
  · intro h x hx
    obtain ⟨i, hi, rfl⟩ := List.getElem_of_mem hx
    have := h i
    rwa [List.getD_eq_getElem _ _ hi] at this

end DigiWage.Lib
