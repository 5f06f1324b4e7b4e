import Mathlib.Data.List.Basic
import Mathlib.Logic.Function.Basic

/-!
# Places in numbered files

An allocator gives out places in numbered files and knows of each file only its top. `Sound` says what that is good for:
every place ends at or below the top of its file, and no place that was chosen by the allocator overlaps an earlier one.
A place that it is told of may lie anywhere, below the top as well.
-/

namespace DigiWage.Lib

/-- Some consecutive bytes of a file. -/
structure Extent where
  file : Nat
  pos : Nat
  size : Nat
deriving DecidableEq

/-- The places have a byte in common. -/
def Extent.Overlaps (a b : Extent) : Prop :=
  a.file = b.file ∧ ∃ i, (a.pos ≤ i ∧ i < a.pos + a.size) ∧ b.pos ≤ i ∧ i < b.pos + b.size

theorem Extent.not_overlaps_of_le {a b : Extent} (h : a.file = b.file → a.pos + a.size ≤ b.pos) : ¬ a.Overlaps b := by
  rintro ⟨hfile, i, ⟨-, ha⟩, hb, -⟩
  have := h hfile
  omega

/-- A place that was given out, and whether the allocator has chosen it. -/
structure Placed extends Extent where
  chosen : Bool
deriving DecidableEq

/-- No place that the allocator has chosen overlaps an earlier one. -/
def Apart (log : List Placed) : Prop := log.Pairwise fun a b => b.chosen = true → ¬ a.Overlaps b.toExtent

/-- The places of a log lie below the tops of their files, and the chosen ones are apart from the earlier ones. -/
structure Sound (top : Nat → Nat) (log : List Placed) : Prop where
  below : ∀ e ∈ log, e.pos + e.size ≤ top e.file
  apart : Apart log

namespace Sound

variable {top : Nat → Nat} {log : List Placed} {e : Placed} {n : Nat}

theorem nil (top : Nat → Nat) : Sound top [] := ⟨fun _ h => (List.not_mem_nil h).elim, List.Pairwise.nil⟩

theorem push (h : Sound top log) (hle : top e.file ≤ n) (hend : e.pos + e.size ≤ n)
    (hpos : e.chosen = true → top e.file ≤ e.pos) : Sound (Function.update top e.file n) (log ++ [e]) := by
  constructor
  · intro a ha
    rcases List.mem_append.mp ha with ha | ha
    · have hbelow := h.below a ha
      by_cases hfile : a.file = e.file
      · rw [hfile, Function.update_self]
        rw [hfile] at hbelow
        exact Nat.le_trans hbelow hle
      · rwa [Function.update_of_ne hfile]
    · rw [List.mem_singleton.mp ha, Function.update_self]
      exact hend
  · apply List.pairwise_append.mpr
    refine ⟨h.apart, List.pairwise_singleton _ _, fun a ha b hb hchosen => ?_⟩
    rw [List.mem_singleton.mp hb] at hchosen ⊢
    apply Extent.not_overlaps_of_le
    intro hfile
    have hbelow := h.below a ha
    rw [hfile] at hbelow
    exact Nat.le_trans hbelow (hpos hchosen)

end Sound

end DigiWage.Lib
