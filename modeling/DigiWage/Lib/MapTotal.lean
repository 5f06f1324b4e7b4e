import Mathlib.Data.List.AList
import Mathlib.Algebra.BigOperators.Group.List.Basic
import Mathlib.Algebra.Ring.Int.Defs

/-!
# Entries of a map, and totals

A finite map is an entry and the rest; the sum of a quantity over its entries, and what inserting and erasing one do to it.
-/

namespace DigiWage.Lib

variable {K V : Type*} [DecidableEq K] {m : AList fun _ : K => V} {k : K} {v : V}

theorem perm_erase (h : m.lookup k = some v) : m.entries.Perm (⟨k, v⟩ :: (m.erase k).entries) := by
  have hmem : k ∈ m.entries.keys := AList.lookup_isSome.mp (by rw [h]; rfl)
  obtain ⟨v', l₁, l₂, -, hentries, herase⟩ := List.exists_of_kerase hmem
  have hv' : v' = v := by
    have hlookup := AList.mem_lookup_iff.mpr (show (⟨k, v'⟩ : Sigma fun _ : K => V) ∈ m.entries by
      rw [hentries]
      exact List.mem_append_right _ List.mem_cons_self)
    exact Option.some.inj (hlookup.symm.trans h)
  show m.entries.Perm (⟨k, v⟩ :: m.entries.kerase k)
  rw [herase, hentries, hv']
  exact List.perm_middle

/-- The sum of a quantity over the values. -/
def total (f : V → Int) (m : AList fun _ : K => V) : Int := (m.entries.map fun e => f e.2).sum

variable {f : V → Int}

theorem total_insert : total f (m.insert k v) = f v + total f (m.erase k) := by
  unfold total
  rw [AList.entries_insert, List.map_cons, List.sum_cons]
  rfl

theorem total_erase (h : m.lookup k = some v) : total f m = f v + total f (m.erase k) := by
  unfold total
  rw [((perm_erase h).map fun e => f e.2).sum_eq, List.map_cons, List.sum_cons]

theorem total_erase_of_notMem (h : m.lookup k = none) : total f (m.erase k) = total f m := by
  unfold total
  rw [show (m.erase k).entries = m.entries from List.kerase_of_notMem_keys (AList.lookup_eq_none.mp h)]

end DigiWage.Lib
