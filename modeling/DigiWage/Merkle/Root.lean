import DigiWage.Merkle.Computation

/-!
# The merkle root

`ComputeMerkleRoot` of `consensus/merkle.cpp` as it would be with an unbounded counter: the root in one pass over the
leaves, with one hash for each level, and without the branch. For the lists of transactions that blocks have, this is the
code's computation (`merkleComputation` of `Merkle/Computation.lean`).

* `computeMerkleRoot_of_some`: whenever the computation with a counter of 32 bits has a result, this is the result.
-/

namespace DigiWage

open Lib.Merkle

variable {α : Type} [DecidableEq α] (hash : α → α → α)

/-- The variables of `MerkleComputation` while it processes the leaves: the number of leaves processed, the subtree hashes
by level, and whether two equal hashes were combined. -/
structure MerkleState (α : Type) where
  count : Nat
  inner : Nat → α
  mutated : Bool

namespace MerkleState

/-- The loop that combines `h` with the inner hashes while the bits of `count` at and over `level` are zero; returns the
level of the first bit that is set, the hash there and `mutated`. An `int` has no more than 32 such bits, the fuel. -/
def climb (inner : Nat → α) (count : Nat) : Nat → Nat → α → Bool → Nat × α × Bool
  | 0, level, h, mutated => (level, h, mutated)
  | fuel + 1, level, h, mutated =>
    if count.testBit level then (level, h, mutated)
    else climb inner count fuel (level + 1) (hash (inner level) h) (mutated || inner level == h)

/-- One round of the loop over the leaves. -/
def addLeaf (s : MerkleState α) (leaf : α) : MerkleState α :=
  let count := s.count + 1
  let (level, h, mutated) := climb hash s.inner count 32 0 leaf s.mutated
  ⟨count, Function.update s.inner level h, mutated⟩

/-- The final sweep over the rightmost branch: while `count` is not `1 << level`, `h` is combined with itself and then
carried up the low zero bits of the new `count`. -/
def sweep (inner : Nat → α) : Nat → Nat → Nat → α → α
  | 0, _, _, h => h
  | fuel + 1, count, level, h =>
    if count = 2 ^ level then h
    else
      let count := count + 2 ^ level
      let (level, h, _) := climb hash inner count 32 (level + 1) (hash h h) false
      sweep inner fuel count level h

end MerkleState

/-- `ComputeMerkleRoot`: the root, and `mutated`. -/
def computeMerkleRoot [Zero α] (leaves : List α) : α × Bool :=
  if leaves = [] then (0, false)
  else
    let s := leaves.foldl (MerkleState.addLeaf hash) ⟨0, fun _ => 0, false⟩
    let level := firstLevel s.count 32 0
    (MerkleState.sweep hash s.inner 32 s.count level (s.inner level), s.mutated)

variable {hash}

namespace MerkleState

variable {inner : Nat → α} {matchlevel : Option Nat} {count level level' : Nat} {c c' : MerkleLoop α}

theorem climb_of_some {left fuel : Nat} (hle : left ≤ fuel)
    (h : MerkleComputation.climb hash inner matchlevel count left level c = some (level', c')) (mutated : Bool) :
    ∃ mutated', climb hash inner count fuel level c.h mutated = (level', c'.h, mutated') ∧
      (mutated = c.mutated → mutated' = c'.mutated) := by
  induction left generalizing fuel level c mutated with
  | zero => cases h
  | succ left ih =>
    obtain ⟨fuel, rfl⟩ := Nat.exists_eq_succ_of_ne_zero (Nat.ne_of_gt (lt_of_lt_of_le left.succ_pos hle))
    rw [MerkleComputation.climb] at h
    rw [climb]
    split at h
    · rename_i hbit
      cases h
      exact ⟨mutated, if_pos hbit, id⟩
    · rename_i hbit
      rw [if_neg hbit]
      obtain ⟨mutated', hres, hflag⟩ := ih (Nat.le_of_succ_le_succ hle) h (mutated || inner level == c.h)
      exact ⟨mutated', hres, fun heq => hflag (by rw [heq]; rfl)⟩

theorem addLeaf_of_some {p : Nat} {s s' : MerkleComputation α} {leaf : α} (hlt : s.count + 1 < 2 ^ 32)
    (h : s.addLeaf hash p leaf = some s') :
    addLeaf hash ⟨s.count, s.inner, s.mutated⟩ leaf = ⟨s'.count, s'.inner, s'.mutated⟩ ∧ s'.count = s.count + 1 := by
  simp only [MerkleComputation.addLeaf, Nat.mod_eq_of_lt hlt] at h
  split at h
  · cases h
  · rename_i level c hclimb
    cases h
    obtain ⟨mutated', hold, hflag⟩ := climb_of_some (Nat.le_refl 32) hclimb s.mutated
    exact ⟨by simp only [addLeaf, hold, hflag], rfl⟩

theorem foldl_of_some {p : Nat} {s s' : MerkleComputation α} {leaves : List α} (hlt : s.count + leaves.length < 2 ^ 32)
    (h : leaves.foldlM (MerkleComputation.addLeaf hash p) s = some s') :
    leaves.foldl (addLeaf hash) ⟨s.count, s.inner, s.mutated⟩ = ⟨s'.count, s'.inner, s'.mutated⟩ ∧
      s'.count = s.count + leaves.length := by
  induction leaves generalizing s with
  | nil =>
    cases h
    exact ⟨rfl, rfl⟩
  | cons leaf leaves ih =>
    rw [List.length_cons] at hlt ⊢
    rw [List.foldlM_cons] at h
    cases hadd : s.addLeaf hash p leaf with
    | none =>
      rw [hadd] at h
      cases h
    | some s₁ =>
      rw [hadd] at h
      obtain ⟨hs₁, hcount⟩ := addLeaf_of_some (by omega) hadd
      obtain ⟨hs', hcount'⟩ := ih (by omega) h
      rw [List.foldl_cons, hs₁]
      exact ⟨hs', by omega⟩

theorem sweep_of_some {fuel k : Nat} (hmax : count < 2 ^ 32) (hcount : count = 2 ^ level * (2 * k + 1)) (hlevel : level < 32)
    (h : MerkleComputation.sweep hash inner matchlevel fuel count level c = some c') :
    sweep hash inner fuel count level c.h = c'.h := by
  induction fuel generalizing count level k c with
  | zero => cases h
  | succ fuel ih =>
    rw [MerkleComputation.sweep] at h
    rw [sweep]
    split at h
    · rename_i htop
      cases h
      rw [if_pos htop]
    · rename_i htop
      rw [if_neg htop]
      dsimp only at h ⊢
      split at h
      · cases h
      · rename_i level' c₁ hclimb
        obtain ⟨hsmall, ⟨k', hk'⟩, hlt⟩ := MerkleComputation.climb_add_lt hmax hcount hlevel hclimb
        rw [Nat.mod_eq_of_lt hsmall] at h hclimb
        obtain ⟨mutated', hold, -⟩ := climb_of_some (show 32 - (level + 1) ≤ 32 by omega) hclimb false
        have hdouble : (c.double hash).h = hash c.h c.h := rfl
        rw [hdouble] at hold
        simp only [hold]
        exact ih hsmall hk' (by omega) h

end MerkleState

theorem computeMerkleRoot_of_some [Zero α] {leaves : List α} {p : Nat} {pbranch mutated : Bool} {root : α} {b : Option (List α)}
    (hmax : leaves.length < 2 ^ 32) (h : merkleComputation hash leaves p pbranch = some (root, mutated, b)) :
    computeMerkleRoot hash leaves = (root, mutated) := by
  unfold merkleComputation at h
  unfold computeMerkleRoot
  dsimp only at h ⊢
  by_cases hne : leaves = []
  · rw [if_pos hne] at h ⊢
    cases h
    rfl
  · rw [if_neg hne] at h ⊢
    split at h
    · cases h
    · rename_i s hfold
      obtain ⟨hold, hcount⟩ := MerkleState.foldl_of_some (by simpa using hmax) hfold
      rw [hold]
      simp only [Nat.zero_add] at hcount
      have hpos : 0 < leaves.length := List.length_pos_iff.mpr hne
      obtain ⟨k, hk, hlevel⟩ := @firstLevel_spec s.count 32 0 (s.count - 1) (by omega) (by omega)
      rw [Option.map_eq_some_iff] at h
      obtain ⟨c, hsweep, hres⟩ := h
      cases hres
      rw [Prod.mk.injEq]
      exact ⟨MerkleState.sweep_of_some (by omega) hk (by omega) hsweep, rfl⟩

theorem computeMerkleRoot_eq [Zero α] {leaves : List α} (hne : leaves ≠ []) (hmax : leaves.length ≤ 2 ^ 31) :
    ∃ height, IsHeight leaves.length height ∧
      (computeMerkleRoot hash leaves).1 = node hash (fun i => leaves.getD i 0) leaves.length height 0 := by
  obtain ⟨height, mutated, b, hheight, hres, -⟩ := merkleComputation_eq hash 0 false hne hmax
  exact ⟨height, hheight, by rw [computeMerkleRoot_of_some (by omega) hres]⟩

end DigiWage
