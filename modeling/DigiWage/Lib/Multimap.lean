import Mathlib.Order.Basic
import Mathlib.Tactic.Tauto
import Mathlib.Order.Lattice

/-!
# Multimaps

A map that may have several entries under a key: a list of keys with values in the order of the keys, where a new entry comes after
those with its key.

* `Ordered.insertUpper`, `perm_insertUpper`: inserting keeps the order and adds one entry.
* `Ordered.head_le`: the first entry has the smallest key.
-/

namespace DigiWage.Lib.Multimap

variable {K V : Type*} [LinearOrder K] {m : List (K × V)} {k : K} {e : K × V}

/-- The entries are in the order of their keys. -/
def Ordered (m : List (K × V)) : Prop := m.Pairwise fun e e' => e.1 ≤ e'.1

/-- The entries from the lower to the upper bound of a key. -/
def equalRange (m : List (K × V)) (k : K) : List (K × V) := (m.dropWhile (·.1 < k)).takeWhile fun e => ¬k < e.1

/-- A new entry at the upper bound of its key. -/
def insertUpper (e : K × V) : List (K × V) → List (K × V)
  | [] => [e]
  | e' :: m => if e.1 < e'.1 then e :: e' :: m else e' :: insertUpper e m

theorem perm_insertUpper (e : K × V) : ∀ m : List (K × V), (insertUpper e m).Perm (e :: m)
  | [] => .refl _
  | e' :: m => by
    rw [insertUpper]
    split
    · exact .refl _
    · exact ((perm_insertUpper e m).cons e').trans (.swap e e' m)

theorem Ordered.insertUpper (e : K × V) : ∀ {m : List (K × V)}, Ordered m → Ordered (insertUpper e m)
  | [], _ => List.pairwise_singleton _ _
  | e' :: m, h => by
    obtain ⟨hhead, htail⟩ := List.pairwise_cons.mp h
    rw [Multimap.insertUpper]
    split
    · rename_i hlt
      refine List.pairwise_cons.mpr ⟨fun x hx => ?_, h⟩
      rcases List.mem_cons.mp hx with rfl | hx
      · exact hlt.le
      · exact hlt.le.trans (hhead x hx)
    · rename_i hge
      refine List.pairwise_cons.mpr ⟨fun x hx => ?_, Ordered.insertUpper e htail⟩
      rcases List.mem_cons.mp ((perm_insertUpper e m).subset hx) with rfl | hx
      · exact le_of_not_gt hge
      · exact hhead x hx

theorem mem_takeWhile : ∀ {m : List (K × V)}, Ordered m → (∀ x ∈ m, k ≤ x.1) →
    (e ∈ m.takeWhile (fun e => ¬k < e.1) ↔ e ∈ m ∧ e.1 = k)
  | [], _, _ => by simp
  | e' :: m, h, hge => by
    obtain ⟨hhead, htail⟩ := List.pairwise_cons.mp h
    by_cases hlt : k < e'.1
    · rw [List.takeWhile_cons_of_neg (by simpa using hlt)]
      refine iff_of_false (List.not_mem_nil) ?_
      rintro ⟨he, heq⟩
      rcases List.mem_cons.mp he with rfl | he
      · exact hlt.ne' heq
      · exact (hlt.trans_le (hhead e he)).ne' heq
    · have hk : e'.1 = k := le_antisymm (le_of_not_gt hlt) (hge e' List.mem_cons_self)
      rw [List.takeWhile_cons_of_pos (by simpa using hlt), List.mem_cons, List.mem_cons,
        mem_takeWhile htail fun x hx => hge x (List.mem_cons_of_mem _ hx), or_and_right]
      exact or_congr_left ⟨fun heq => ⟨heq, heq ▸ hk⟩, And.left⟩

theorem mem_equalRange : ∀ {m : List (K × V)}, Ordered m → (e ∈ equalRange m k ↔ e ∈ m ∧ e.1 = k)
  | [], _ => by simp [equalRange]
  | e' :: m, h => by
    obtain ⟨hhead, htail⟩ := List.pairwise_cons.mp h
    have ih := @mem_equalRange m htail
    unfold equalRange at ih ⊢
    by_cases hlt : e'.1 < k
    · have hne : e = e' → ¬e.1 = k := by
        rintro rfl heq
        exact hlt.ne heq
      rw [List.dropWhile_cons_of_pos (by simpa using hlt), ih, List.mem_cons]
      tauto
    · rw [List.dropWhile_cons_of_neg (by simpa using hlt)]
      refine mem_takeWhile h fun x hx => ?_
      rcases List.mem_cons.mp hx with rfl | hx
      · exact le_of_not_gt hlt
      · exact (le_of_not_gt hlt).trans (hhead x hx)

theorem Ordered.head_le {e' : K × V} (h : Ordered (e :: m)) (he : e' ∈ e :: m) : e.1 ≤ e'.1 := by
  rcases List.mem_cons.mp he with rfl | he
  · exact le_rfl
  · exact (List.pairwise_cons.mp h).1 e' he

theorem Ordered.sublist {m' : List (K × V)} (h : Ordered m) (hs : m'.Sublist m) : Ordered m' := List.Pairwise.sublist hs h

end DigiWage.Lib.Multimap
