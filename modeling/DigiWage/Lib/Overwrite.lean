import Mathlib.Data.List.Basic

/-!
# Writing into a file

A file is the list of its bytes. Writing at a place overwrites what is there; a file that ends before the place is first filled up.

* `drop_overwrite`, `take_overwrite`: what was written is read there, and what is before it stays.
* `overwrite_append`: writing on from where the last write has stopped is one write.
-/

namespace DigiWage.Lib

section Overwrite

variable {α : Type} {z : α} {l data more : List α} {i n : Nat}

/-- The file `l` after `data` was written at `i`. Where `l` ends before `i` the place between is filled with `z`; writing nothing
leaves the file as it is. -/
def overwrite (z : α) (l : List α) (i : Nat) (data : List α) : List α :=
  if data.isEmpty then l
  else l.take i ++ List.replicate (i - l.length) z ++ data ++ l.drop (i + data.length)

theorem overwrite_of_ne (hne : data ≠ []) : overwrite z l i data =
    l.take i ++ List.replicate (i - l.length) z ++ data ++ l.drop (i + data.length) := by
  have hempty : data.isEmpty = false := by rwa [List.isEmpty_eq_false_iff]
  rw [overwrite, hempty, if_neg Bool.false_ne_true]

theorem length_filled (z : α) (l : List α) (i : Nat) : (l.take i ++ List.replicate (i - l.length) z).length = i := by
  rw [List.length_append, List.length_take, List.length_replicate]
  omega

theorem length_overwrite (hne : data ≠ []) : (overwrite z l i data).length = max l.length (i + data.length) := by
  rw [overwrite_of_ne hne, List.length_append, List.length_append, length_filled, List.length_drop]
  omega

theorem drop_overwrite (hne : data ≠ []) : (overwrite z l i data).drop i = data ++ l.drop (i + data.length) := by
  rw [overwrite_of_ne hne, List.append_assoc, List.drop_left' (length_filled z l i)]

theorem take_overwrite (hi : n ≤ i) (hl : n ≤ l.length) : (overwrite z l i data).take n = l.take n := by
  by_cases hne : data = []
  · rw [hne]
    rfl
  have htake : n ≤ (l.take i).length := by
    rw [List.length_take]
    omega
  rw [overwrite_of_ne hne, List.append_assoc, List.append_assoc, List.take_append_of_le_length htake, List.take_take,
    Nat.min_eq_left hi]

theorem take_overwrite_end (hne : data ≠ []) (hi : i ≤ l.length) :
    (overwrite z l i data).take (i + data.length) = l.take i ++ data := by
  rw [overwrite_of_ne hne, Nat.sub_eq_zero_of_le hi, List.replicate_zero, List.append_nil]
  refine List.take_left' ?_
  rw [List.length_append, List.length_take, Nat.min_eq_left hi]

theorem overwrite_middle (z : α) (a : List α) {b d : List α} (c : List α) (hlen : d.length = b.length) (hne : d ≠ []) :
    overwrite z (a ++ b ++ c) a.length d = a ++ d ++ c := by
  have hfill : a.length - (a ++ b ++ c).length = 0 := by
    rw [List.length_append, List.length_append]
    omega
  rw [overwrite_of_ne hne, hfill, List.replicate_zero, List.append_nil, hlen, ← List.length_append, List.drop_left,
    List.append_assoc a b c,
    List.take_left]

theorem overwrite_append : overwrite z (overwrite z l i data) (i + data.length) more = overwrite z l i (data ++ more) := by
  by_cases hne : data = []
  · rw [hne]
    rfl
  by_cases hmore : more = []
  · rw [hmore, List.append_nil]
    rfl
  have hlen := @length_overwrite α z l data i hne
  have htake : (overwrite z l i data).take (i + data.length) = l.take i ++ List.replicate (i - l.length) z ++ data := by
    rw [overwrite_of_ne hne, List.take_left']
    rw [List.length_append, length_filled]
  have hdrop : (overwrite z l i data).drop (i + data.length + more.length) = l.drop (i + data.length + more.length) := by
    have hfirst : (l.take i ++ List.replicate (i - l.length) z ++ data).length = i + data.length := by
      rw [List.length_append, length_filled]
    rw [overwrite_of_ne hne, ← List.drop_drop, List.drop_left' hfirst, List.drop_drop]
  have hfill : i + data.length - (overwrite z l i data).length = 0 := by omega
  have happend : data ++ more ≠ [] := by
    intro h
    exact hne (List.append_eq_nil_iff.mp h).1
  rw [overwrite_of_ne hmore, htake, hfill, List.replicate_zero, List.append_nil, hdrop, overwrite_of_ne happend,
    List.length_append, Nat.add_assoc]
  simp only [List.append_assoc]

end Overwrite

end DigiWage.Lib
