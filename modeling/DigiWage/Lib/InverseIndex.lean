import Mathlib.Data.Finset.Insert
import Mathlib.Data.Finset.Erase
import Mathlib.Data.List.AList

/-!
# Inverse indices

A store of values under keys, each value with a list of names it refers to, and an index from the names to the sets of the
keys whose values refer to them. A value may refer to a name several times.

* `Inverse.insert`, `Inverse.erase`: linking a new value name by name, and unlinking a stored one, keep this.
-/

namespace DigiWage.Lib

variable {K P V : Type*} [DecidableEq K] [DecidableEq P]

/-- Names with the keys of the values that refer to them. -/
abbrev KeyIndex (P K : Type*) := AList fun _ : P => Finset K

namespace KeyIndex

variable {m : KeyIndex P K} {k k' : K} {p q : P} {ps : List P}

/-- The keys under a name. -/
def keysAt (m : KeyIndex P K) (p : P) : Finset K := (m.lookup p).getD ∅

/-- The key is added under the name, which is made when it is missing. -/
def link (k : K) (m : KeyIndex P K) (p : P) : KeyIndex P K := m.insert p (insert k (m.keysAt p))

/-- The key is taken away under the name, and the name with its last key. -/
def unlink (k : K) (m : KeyIndex P K) (p : P) : KeyIndex P K :=
  match m.lookup p with
  | none => m
  | some keys => if keys.erase k = ∅ then m.erase p else m.insert p (keys.erase k)

/-- No name has an empty set. -/
def NoneEmpty (m : KeyIndex P K) : Prop := ∀ p keys, m.lookup p = some keys → keys ≠ ∅

theorem keysAt_link : (m.link k p).keysAt q = if q = p then insert k (m.keysAt q) else m.keysAt q := by
  unfold link keysAt
  split
  · rename_i hq
    rw [hq, AList.lookup_insert, Option.getD_some]
  · rename_i hq
    rw [AList.lookup_insert_ne hq]

theorem NoneEmpty.link (h : m.NoneEmpty) : (m.link k p).NoneEmpty := by
  intro q keys hq
  unfold KeyIndex.link at hq
  by_cases hqp : q = p
  · rw [hqp, AList.lookup_insert] at hq
    cases hq
    exact Finset.insert_ne_empty _ _
  · rw [AList.lookup_insert_ne hqp] at hq
    exact h q keys hq

theorem keysAt_unlink : (m.unlink k p).keysAt q = if q = p then (m.keysAt q).erase k else m.keysAt q := by
  unfold unlink
  cases hp : m.lookup p with
  | none =>
    dsimp only
    by_cases hq : q = p
    · subst hq
      simp [keysAt, hp]
    · rw [if_neg hq]
  | some keys =>
    by_cases hq : q = p
    · subst hq
      rw [if_pos rfl, keysAt, keysAt, hp, Option.getD_some]
      dsimp only
      split
      · rename_i hempty
        rw [AList.lookup_erase, Option.getD_none, hempty]
      · rw [AList.lookup_insert, Option.getD_some]
    · rw [if_neg hq, keysAt, keysAt]
      dsimp only
      split
      · rw [AList.lookup_erase_ne hq]
      · rw [AList.lookup_insert_ne hq]

theorem NoneEmpty.unlink (h : m.NoneEmpty) : (m.unlink k p).NoneEmpty := by
  intro q keys hq
  unfold KeyIndex.unlink at hq
  cases hp : m.lookup p with
  | none =>
    rw [hp] at hq
    exact h q keys hq
  | some keys' =>
    rw [hp] at hq
    dsimp only at hq
    by_cases hqp : q = p
    · subst hqp
      split at hq
      · rw [AList.lookup_erase] at hq
        cases hq
      · rename_i hne
        rw [AList.lookup_insert] at hq
        cases hq
        exact hne
    · split at hq
      · rw [AList.lookup_erase_ne hqp] at hq
        exact h q keys hq
      · rw [AList.lookup_insert_ne hqp] at hq
        exact h q keys hq

theorem mem_foldl_link : ∀ (ps : List P) (m : KeyIndex P K),
    k' ∈ (ps.foldl (link k) m).keysAt q ↔ k' ∈ m.keysAt q ∨ k' = k ∧ q ∈ ps
  | [], m => by simp
  | p :: ps, m => by
    rw [List.foldl_cons, mem_foldl_link ps, keysAt_link]
    by_cases hq : q = p
    · rw [if_pos hq, Finset.mem_insert, hq]
      simp only [List.mem_cons, true_or, and_true]
      tauto
    · rw [if_neg hq]
      simp only [List.mem_cons, hq, false_or]

theorem noneEmpty_foldl_link (ps : List P) (h : m.NoneEmpty) : (ps.foldl (link k) m).NoneEmpty := by
  induction ps generalizing m with
  | nil => exact h
  | cons p ps ih => exact ih h.link

theorem mem_foldl_unlink : ∀ (ps : List P) (m : KeyIndex P K),
    k' ∈ (ps.foldl (unlink k) m).keysAt q ↔ k' ∈ m.keysAt q ∧ ¬ (k' = k ∧ q ∈ ps)
  | [], m => by simp
  | p :: ps, m => by
    rw [List.foldl_cons, mem_foldl_unlink ps, keysAt_unlink]
    by_cases hq : q = p
    · rw [if_pos hq, Finset.mem_erase, hq]
      simp only [List.mem_cons, true_or, and_true]
      tauto
    · rw [if_neg hq]
      simp only [List.mem_cons, hq, false_or]

theorem noneEmpty_foldl_unlink (ps : List P) (h : m.NoneEmpty) : (ps.foldl (unlink k) m).NoneEmpty := by
  induction ps generalizing m with
  | nil => exact h
  | cons p ps ih => exact ih h.unlink

end KeyIndex

open KeyIndex

variable {refs : V → List P} {store : AList fun _ : K => V} {m : KeyIndex P K} {k : K} {v : V}

/-- The index has exactly the references of the stored values, and no empty set. -/
structure Inverse (refs : V → List P) (store : AList fun _ : K => V) (m : KeyIndex P K) : Prop where
  mem_iff : ∀ p k, k ∈ m.keysAt p ↔ ∃ v, store.lookup k = some v ∧ p ∈ refs v
  noneEmpty : m.NoneEmpty

theorem inverse_empty : Inverse refs (∅ : AList fun _ : K => V) ∅ := by
  refine ⟨fun p k => ?_, fun p keys h => ?_⟩
  · simp [keysAt]
  · simp at h

theorem Inverse.insert (h : Inverse refs store m) (hnew : store.lookup k = none) :
    Inverse refs (store.insert k v) ((refs v).foldl (link k) m) := by
  refine ⟨fun p k' => ?_, noneEmpty_foldl_link _ h.noneEmpty⟩
  rw [mem_foldl_link, h.mem_iff]
  by_cases hk : k' = k
  · subst hk
    simp [hnew]
  · simp [hk, AList.lookup_insert_ne hk]

theorem Inverse.erase (h : Inverse refs store m) (hk : store.lookup k = some v) :
    Inverse refs (store.erase k) ((refs v).foldl (unlink k) m) := by
  refine ⟨fun p k' => ?_, noneEmpty_foldl_unlink _ h.noneEmpty⟩
  rw [mem_foldl_unlink, h.mem_iff]
  by_cases hk' : k' = k
  · subst hk'
    simp [hk]
  · simp [hk', AList.lookup_erase_ne hk']

end DigiWage.Lib
