import DigiWage.Lib.Merkle
import Mathlib.Logic.Function.Basic
import Mathlib.Data.Nat.Bitwise
import Mathlib.Data.BitVec

/-!
# The computation of roots and branches

`MerkleComputation` of `consensus/merkle.cpp`: the root, the flag `mutated` and the branch of a leaf in one pass over the
leaves, with one hash for each level. After `count` leaves, the hash kept at level `l` is the last full subtree of that
level when bit `l` of `count` is set, and the other entries are undefined; here they hold whatever was written there
last. The pair hash is a parameter.

* The counter has 32 bits, and shifts go up to 31 bits: a shift by 32 bits is undefined, and there is no result.
* `climb_spec` says once what the loops over the low zero bits of `count` compute, and `addLeaf_spec` that the hashes kept
  are those of the tree.
* `merkleComputation_eq`: up to `2 ^ 31` leaves the root is that of the tree, the branch has the siblings on the way up
  from the leaf, and `mutated` says that two siblings over full subtrees are equal.
-/

namespace DigiWage

open Lib.Merkle

variable {α : Type} [DecidableEq α] (hash : α → α → α)

/-- The variables of a loop over the levels: the hash that is carried up, whether it depends on the leaf at `branchpos`,
`mutated`, and `*pbranch` unless the pointer is null. -/
structure MerkleLoop (α : Type) where
  h : α
  matchh : Bool
  mutated : Bool
  pbranch : Option (List α)

namespace MerkleLoop

/-- The part of a round for the branch. -/
def collect (c : MerkleLoop α) (inner : α) (here : Bool) : MerkleLoop α :=
  match c.pbranch with
  | none => c
  | some branch =>
    if c.matchh then { c with pbranch := some (branch ++ [inner]) }
    else if here then { c with pbranch := some (branch ++ [c.h]), matchh := true }
    else c

/-- A round of the loop over the low zero bits. -/
def combine (c : MerkleLoop α) (inner : α) (here : Bool) : MerkleLoop α :=
  { c.collect inner here with h := hash inner c.h, mutated := c.mutated || inner == c.h }

/-- What the last sweep does with a hash that has no sibling. -/
def double (c : MerkleLoop α) : MerkleLoop α :=
  { c with h := hash c.h c.h, pbranch := if c.matchh then c.pbranch.map (· ++ [c.h]) else c.pbranch }

end MerkleLoop

/-- The variables of `MerkleComputation` while it processes the leaves; `matchlevel` is the level of the inner hash that
depends on the leaf at `branchpos`. -/
structure MerkleComputation (α : Type) where
  count : Nat
  inner : Nat → α
  matchlevel : Option Nat
  mutated : Bool
  pbranch : Option (List α)

namespace MerkleComputation

/-- The loop over the zero bits of `count` from `level` on, with the number of levels that are left: a shift by 32 bits is
undefined. -/
def climb (inner : Nat → α) (matchlevel : Option Nat) (count : Nat) : Nat → Nat → MerkleLoop α → Option (Nat × MerkleLoop α)
  | 0, _, _ => none
  | left + 1, level, c =>
    if count.testBit level then some (level, c)
    else climb inner matchlevel count left (level + 1) (c.combine hash (inner level) (matchlevel == some level))

/-- One round of the loop over the leaves. -/
def addLeaf (branchpos : Nat) (s : MerkleComputation α) (leaf : α) : Option (MerkleComputation α) :=
  let count := (s.count + 1) % 2 ^ 32
  match climb hash s.inner s.matchlevel count 32 0 ⟨leaf, s.count == branchpos, s.mutated, s.pbranch⟩ with
  | none => none
  | some (level, c) =>
    some ⟨count, Function.update s.inner level c.h, if c.matchh then some level else s.matchlevel, c.mutated, c.pbranch⟩

/-- The final sweep over the rightmost branch. -/
def sweep (inner : Nat → α) (matchlevel : Option Nat) : Nat → Nat → Nat → MerkleLoop α → Option (MerkleLoop α)
  | 0, _, _, _ => none
  | fuel + 1, count, level, c =>
    if count = 2 ^ level then some c
    else
      -- the value it would have if two entries at this level had existed
      let count := (count + 2 ^ level) % 2 ^ 32
      match climb hash inner matchlevel count (32 - (level + 1)) (level + 1) (c.double hash) with
      | none => none
      | some (level, c) => sweep inner matchlevel fuel count level c

end MerkleComputation

/-- The first level from `level` on whose bit in `count` is set. -/
def firstLevel (count : Nat) : Nat → Nat → Nat
  | 0, level => level
  | fuel + 1, level => if count.testBit level then level else firstLevel count fuel (level + 1)

/-- `MerkleComputation`: the root, `mutated`, and the branch when there is a pointer for it. The sweep does not change
`mutated`. -/
def merkleComputation [Zero α] (leaves : List α) (branchpos : Nat) (pbranch : Bool) : Option (α × Bool × Option (List α)) :=
  let branch := if pbranch then some [] else none
  if leaves = [] then some (0, false, branch)
  else
    match leaves.foldlM (MerkleComputation.addLeaf hash branchpos) ⟨0, fun _ => 0, none, false, branch⟩ with
    | none => none
    | some s =>
      let level := firstLevel s.count 32 0
      (MerkleComputation.sweep hash s.inner s.matchlevel 32 s.count level
        ⟨s.inner level, s.matchlevel == some level, s.mutated, s.pbranch⟩).map fun c => (c.h, s.mutated, c.pbranch)

/-- `ComputeMerkleRoot`, which asks for no branch: the root, and `*mutated`. -/
def checkedMerkleRoot [Zero α] (leaves : List α) : Option (α × Bool) :=
  (merkleComputation hash leaves (2 ^ 32 - 1) false).map fun r => (r.1, r.2.1)

def computeMerkleBranch [Zero α] (leaves : List α) (position : Nat) : Option (List α) :=
  (merkleComputation hash leaves position true).bind fun r => r.2.2

def computeMerkleRootFromBranch (leaf : α) (vMerkleBranch : List α) (nIndex : Nat) : α :=
  (vMerkleBranch.foldl (fun (r : α × Nat) it =>
    (if r.2 % 2 = 1 then hash it r.1 else hash r.1 it, r.2 / 2)) (leaf, nIndex)).1

variable {hash}

theorem MerkleLoop.isSome_combine (c : MerkleLoop α) (inner : α) (here : Bool) :
    (c.combine hash inner here).pbranch.isSome = c.pbranch.isSome := by
  unfold combine collect
  cases hbranch : c.pbranch with
  | none => simp [hbranch]
  | some b =>
    dsimp only
    split
    · rfl
    · split <;> simp [hbranch]

omit [DecidableEq α] in
theorem MerkleLoop.isSome_double (c : MerkleLoop α) : (c.double hash).pbranch.isSome = c.pbranch.isSome := by
  unfold double
  dsimp only
  split <;> simp

namespace MerkleComputation

variable {leaf : Nat → α} {n p bound kept count level : Nat} {inner : Nat → α} {matchlevel : Option Nat} {c : MerkleLoop α}

/-! ## What is kept -/

/-- The hashes kept after `count` leaves: at the level of each bit that is set, the last full subtree. -/
def Kept (hash : α → α → α) (leaf : Nat → α) (n count : Nat) (inner : Nat → α) : Prop :=
  ∀ l k, count / 2 ^ l = 2 * k + 1 → inner l = node hash leaf n l (2 * k)

/-- Where the branch of the leaf at `p` stands when the hash carried does not depend on it: there is none yet while `p` is
not below `bound`, and it leads to the hash that is kept for `p` at a level from `low` on otherwise. -/
def Waits (hash : α → α → α) (leaf : Nat → α) (n p bound kept low : Nat) (matchlevel : Option Nat) (b : List α) : Prop :=
  (bound ≤ p → matchlevel = none ∧ b = []) ∧
    (p < bound → ∃ m, matchlevel = some m ∧ low ≤ m ∧ kept / 2 ^ m % 2 = 1 ∧ p / 2 ^ m + 1 = kept / 2 ^ m ∧
      b = branch hash leaf n p m)

/-- Where the branch stands beside the hash of the node at `level` and `pos`. -/
def Tracks (hash : α → α → α) (leaf : Nat → α) (n p bound kept low : Nat) (matchlevel : Option Nat) (level pos : Nat)
    (c : MerkleLoop α) : Prop :=
  ∀ b, c.pbranch = some b →
    if c.matchh then p / 2 ^ level = pos ∧ b = branch hash leaf n p level
    else Waits hash leaf n p bound kept low matchlevel b

omit [DecidableEq α] in
theorem Waits.le {b : List α} (h : Waits hash leaf n p bound kept level matchlevel b) (hne : matchlevel ≠ some level) :
    Waits hash leaf n p bound kept (level + 1) matchlevel b := by
  refine ⟨h.1, fun hp => ?_⟩
  obtain ⟨m, hm, hle, hrest⟩ := h.2 hp
  refine ⟨m, hm, ?_, hrest⟩
  rcases Nat.eq_or_lt_of_le hle with rfl | hlt
  · exact absurd hm hne
  · exact hlt

theorem Tracks.combine {k : Nat} (h : Tracks hash leaf n p bound kept level matchlevel level (2 * k + 1) c)
    (hkept : kept / 2 ^ level = 2 * k + 1) (hlt : 2 * k + 1 < width n level) {left : α}
    (hleft : left = node hash leaf n level (2 * k)) (hh : c.h = node hash leaf n level (2 * k + 1)) :
    Tracks hash leaf n p bound kept (level + 1) matchlevel (level + 1) k
      (c.combine hash left (matchlevel == some level)) := by
  intro b hb
  cases hbranch : c.pbranch with
  | none => simp [MerkleLoop.combine, MerkleLoop.collect, hbranch] at hb
  | some b₀ =>
    have hold := h b₀ hbranch
    have hup : ∀ {q}, p / 2 ^ level = q → p / 2 ^ (level + 1) = q / 2 := by
      rintro q rfl
      rw [pow_succ, Nat.div_div_eq_div_mul]
    cases hmatch : c.matchh with
    | true =>
      -- the node is the right child, and its sibling is kept
      simp only [hmatch, if_true] at hold
      simp only [MerkleLoop.combine, MerkleLoop.collect, hbranch, hmatch, if_true, Option.some.injEq] at hb ⊢
      refine ⟨by rw [hup hold.1]; omega, ?_⟩
      rw [← hb, branch_succ, hold.1, sibling, if_pos (by omega), hold.2, hleft]
      rfl
    | false =>
      simp only [hmatch, Bool.false_eq_true, if_false] at hold
      by_cases hhere : matchlevel = some level
      · -- the left child is the one that is kept
        simp only [MerkleLoop.combine, MerkleLoop.collect, hbranch, hmatch, Bool.false_eq_true, if_false, hhere,
          beq_self_eq_true, if_true, Option.some.injEq] at hb ⊢
        have hp : p < bound := by
          by_contra hp
          have hnone := (hold.1 (Nat.not_lt.mp hp)).1
          rw [hhere] at hnone
          cases hnone
        obtain ⟨m, hm, -, -, hpos, hbm⟩ := hold.2 hp
        obtain rfl : level = m := Option.some.inj (hhere.symm.trans hm)
        have hpos' : p / 2 ^ level = 2 * k := by omega
        refine ⟨by rw [hup hpos']; omega, ?_⟩
        rw [← hb, branch_succ, hpos', sibling, if_neg (by omega), if_pos hlt, hbm, hh]
      · have hfalse : (matchlevel == some level) = false := by simpa using hhere
        simp only [MerkleLoop.combine, MerkleLoop.collect, hbranch, hmatch, Bool.false_eq_true, if_false, hfalse,
          Option.some.injEq] at hb ⊢
        rw [← hb]
        exact hold.le hhere

/-! ## The low zero bits -/

theorem testBit_mul_self (level m : Nat) : (2 ^ level * m).testBit level = decide (m % 2 = 1) := by
  rw [Nat.testBit_eq_decide_div_mod_eq, Nat.mul_div_cancel_left _ (Nat.two_pow_pos level)]

/-- What the loop over the low zero bits leaves: the level of the first bit of `count` that is set, and the hash of the
last node of that level. -/
structure Climbed (hash : α → α → α) (leaf : Nat → α) (n p bound kept count : Nat) (matchlevel : Option Nat) (level : Nat)
    (c : MerkleLoop α) (level' k : Nat) (c' : MerkleLoop α) : Prop where
  level_le : level ≤ level'
  count_eq : count = 2 ^ level' * (2 * k + 1)
  h_eq : c'.h = node hash leaf n level' (2 * k)
  isSome_eq : c'.pbranch.isSome = c.pbranch.isSome
  tracks : Tracks hash leaf n p bound kept level' matchlevel level' (2 * k) c'
  mutated_iff : c'.mutated = true ↔ c.mutated = true ∨
    ∃ l k, level ≤ l ∧ count = 2 ^ l * (2 * k + 2) ∧ node hash leaf n l (2 * k) = node hash leaf n l (2 * k + 1)

theorem exists_level_succ {P : Nat → Prop} : (∃ l, level ≤ l ∧ P l) ↔ P level ∨ ∃ l, level + 1 ≤ l ∧ P l := by
  constructor
  · rintro ⟨l, hle, hl⟩
    rcases Nat.eq_or_lt_of_le hle with rfl | hlt
    · exact Or.inl hl
    · exact Or.inr ⟨l, hlt, hl⟩
  · rintro (hl | ⟨l, hle, hl⟩)
    · exact ⟨level, Nat.le_refl _, hl⟩
    · exact ⟨l, Nat.le_of_succ_le hle, hl⟩

theorem climb_spec (left : Nat) {pos : Nat} (hcount : count = 2 ^ level * (pos + 1)) (hmax : count < 2 ^ (level + left))
    (hlow : 2 ^ level * pos ≤ kept) (hlast : kept < count) (hn : 2 ^ level * pos < n) (hkept : Kept hash leaf n kept inner)
    (hh : c.h = node hash leaf n level pos) (ht : Tracks hash leaf n p bound kept level matchlevel level pos c) :
    ∃ level' k c', climb hash inner matchlevel count left level c = some (level', c') ∧
      Climbed hash leaf n p bound kept count matchlevel level c level' k c' := by
  induction left generalizing level pos c with
  | zero =>
    -- a multiple of a power of two is not below it
    rw [hcount, Nat.add_zero] at hmax
    exact absurd hmax (Nat.not_lt.mpr (Nat.le_mul_of_pos_right _ pos.succ_pos))
  | succ left ih =>
    have hbit := testBit_mul_self level (pos + 1)
    rw [← hcount] at hbit
    rw [climb, hbit]
    have hpow := Nat.two_pow_pos level
    obtain ⟨k, rfl | rfl⟩ := Nat.even_or_odd' pos
    · -- the bit is set
      rw [if_pos (by simp)]
      refine ⟨level, k, c, rfl, Nat.le_refl _, hcount, hh, rfl, ht, (or_iff_left ?_).symm⟩
      rintro ⟨l, j, hle, hj, -⟩
      obtain ⟨d, rfl⟩ := Nat.exists_eq_add_of_le hle
      rw [hcount, show 2 ^ (level + d) * (2 * j + 2) = 2 ^ level * (2 * (2 ^ d * (j + 1))) by ring] at hj
      have := Nat.eq_of_mul_eq_mul_left hpow hj
      omega
    · -- the bit is zero, and the node is a right child
      rw [if_neg (by simp; omega)]
      have hdiv : kept / 2 ^ level = 2 * k + 1 := by
        apply Nat.div_eq_of_lt_le
        · linarith
        · rw [Nat.mul_comm, ← hcount]
          exact hlast
      have hleft := hkept level k hdiv
      have hright : 2 * k + 1 < width n level := by
        rw [lt_width, Nat.mul_comm]
        exact hn
      have hup : (c.combine hash (inner level) (matchlevel == some level)).h = node hash leaf n (level + 1) k := by
        rw [node_succ_of_lt hright, ← hleft, ← hh]
        rfl
      have hnext : count = 2 ^ (level + 1) * (k + 1) := by rw [hcount]; ring
      have hdown : 2 ^ (level + 1) * k ≤ 2 ^ level * (2 * k + 1) := by
        rw [show 2 ^ level * (2 * k + 1) = 2 ^ (level + 1) * k + 2 ^ level by ring]
        exact Nat.le_add_right _ _
      obtain ⟨level', j, c', hres, hc'⟩ := ih hnext (by rwa [Nat.add_right_comm]) (by omega) (by omega) hup
        (ht.combine hdiv hright hleft hh)
      refine ⟨level', j, c', hres, ?_⟩
      have hpair : (∃ j, count = 2 ^ level * (2 * j + 2) ∧ node hash leaf n level (2 * j) = node hash leaf n level (2 * j + 1)) ↔
          (inner level == c.h) = true := by
        rw [beq_iff_eq, hleft, hh]
        constructor
        · rintro ⟨j, hj, heq⟩
          rw [hcount] at hj
          have := Nat.eq_of_mul_eq_mul_left hpow hj
          obtain rfl : k = j := by omega
          exact heq
        · intro heq
          exact ⟨k, hcount, heq⟩
      refine ⟨by have := hc'.level_le; omega, hc'.count_eq, hc'.h_eq, hc'.isSome_eq.trans (c.isSome_combine _ _), hc'.tracks, ?_⟩
      have hsplit := @exists_level_succ level fun l => ∃ k, count = 2 ^ l * (2 * k + 2) ∧
        node hash leaf n l (2 * k) = node hash leaf n l (2 * k + 1)
      simp only [← exists_and_left] at hsplit
      rw [hc'.mutated_iff, hsplit, hpair]
      simp only [MerkleLoop.combine, Bool.or_eq_true, or_assoc]

/-! ## The leaves -/

/-- What the loop over the leaves keeps. -/
structure Processed (hash : α → α → α) (leaf : Nat → α) (n p : Nat) (s : MerkleComputation α) : Prop where
  kept : Kept hash leaf n s.count s.inner
  mutated : s.mutated = true ↔ FullPair hash leaf n s.count
  waits : ∀ b, s.pbranch = some b → Waits hash leaf n p s.count s.count 0 s.matchlevel b

theorem div_two_pow_succ {k l : Nat} (hcount : kept + 1 = 2 ^ level * (2 * k + 1)) (hlt : level < l) :
    (kept + 1) / 2 ^ l = kept / 2 ^ l := by
  rw [Nat.succ_div, if_neg, Nat.add_zero]
  rintro ⟨q, hq⟩
  obtain ⟨d, rfl⟩ := Nat.exists_eq_add_of_lt hlt
  rw [hq, show 2 ^ (level + d + 1) * q = 2 ^ level * (2 * (2 ^ d * q)) by ring] at hcount
  have := Nat.eq_of_mul_eq_mul_left (Nat.two_pow_pos level) hcount
  omega

omit [DecidableEq α] in
theorem Kept.update {k : Nat} (h : Kept hash leaf n kept inner) (hcount : kept + 1 = 2 ^ level * (2 * k + 1)) :
    Kept hash leaf n (kept + 1) (Function.update inner level (node hash leaf n level (2 * k))) := by
  intro l j hl
  rcases lt_trichotomy l level with hlow | rfl | hhigh
  · -- the bits below `level` are zero
    exfalso
    obtain ⟨d, rfl⟩ := Nat.exists_eq_add_of_lt hlow
    rw [hcount, show 2 ^ (l + d + 1) * (2 * k + 1) = 2 ^ l * (2 * (2 ^ d * (2 * k + 1))) by ring,
      Nat.mul_div_cancel_left _ (Nat.two_pow_pos l)] at hl
    omega
  · rw [hcount, Nat.mul_div_cancel_left _ (Nat.two_pow_pos l)] at hl
    rw [Function.update_self, show j = k by omega]
  · -- the bits over it are those of the count before
    rw [Function.update_of_ne (by omega)]
    apply h
    rw [← hl, div_two_pow_succ hcount hhigh]

omit [DecidableEq α] in
theorem fullPair_succ : FullPair hash leaf n (count + 1) ↔ FullPair hash leaf n count ∨
    ∃ l k, 0 ≤ l ∧ count + 1 = 2 ^ l * (2 * k + 2) ∧ node hash leaf n l (2 * k) = node hash leaf n l (2 * k + 1) := by
  constructor
  · rintro ⟨l, k, hle, heq⟩
    rcases Nat.eq_or_lt_of_le hle with hlast | hlt
    · exact Or.inr ⟨l, k, Nat.zero_le _, hlast.symm, heq⟩
    · exact Or.inl ⟨l, k, Nat.lt_succ_iff.mp hlt, heq⟩
  · rintro (⟨l, k, hle, heq⟩ | ⟨l, k, -, hlast, heq⟩)
    · exact ⟨l, k, Nat.le_succ_of_le hle, heq⟩
    · exact ⟨l, k, hlast.ge, heq⟩

theorem Processed.addLeaf {s : MerkleComputation α} (h : Processed hash leaf n p s) (hlt : s.count < n) (hn : n < 2 ^ 32) :
    ∃ s', s.addLeaf hash p (leaf s.count) = some s' ∧ Processed hash leaf n p s' ∧ s'.count = s.count + 1 ∧
      s'.pbranch.isSome = s.pbranch.isSome := by
  have ht : Tracks hash leaf n p (s.count + 1) s.count 0 s.matchlevel 0 s.count
      ⟨leaf s.count, s.count == p, s.mutated, s.pbranch⟩ := by
    intro b hb
    have hold := h.waits b hb
    by_cases hp : s.count = p
    · simp only [hp, beq_self_eq_true, if_true, pow_zero, Nat.div_one, true_and]
      exact (hold.1 hp.le).2
    · have hne : (s.count == p) = false := by simpa using hp
      simp only [hne, Bool.false_eq_true, if_false]
      exact ⟨fun hle => hold.1 (by omega), fun hlt => hold.2 (by omega)⟩
  obtain ⟨level, k, c, hclimb, hc⟩ := climb_spec 32 (show s.count + 1 = 2 ^ 0 * (s.count + 1) by rw [pow_zero, one_mul])
    (show s.count + 1 < 2 ^ (0 + 32) by omega) (by simp) (Nat.lt_succ_self s.count) (by simpa using hlt) h.kept rfl ht
  refine ⟨⟨s.count + 1, Function.update s.inner level c.h, if c.matchh then some level else s.matchlevel, c.mutated,
    c.pbranch⟩, ?_, ⟨?_, ?_, ?_⟩, rfl, hc.isSome_eq⟩
  · simp only [MerkleComputation.addLeaf]
    rw [Nat.mod_eq_of_lt (by omega), hclimb]
  · simp only [hc.h_eq]
    exact h.kept.update hc.count_eq
  · rw [hc.mutated_iff, fullPair_succ, h.mutated]
  · intro b hb
    have hnew := hc.tracks b hb
    cases hmatch : c.matchh with
    | true =>
      simp only [hmatch, if_true] at hnew ⊢
      have hdiv : (s.count + 1) / 2 ^ level = 2 * k + 1 := by
        rw [hc.count_eq, Nat.mul_div_cancel_left _ (Nat.two_pow_pos level)]
      have hp : p < s.count + 1 := by
        have hlt : p / 2 ^ level < (s.count + 1) / 2 ^ level := by omega
        exact Nat.lt_of_div_lt_div hlt
      exact ⟨fun hle => absurd hp (Nat.not_lt.mpr hle), fun _ =>
        ⟨level, rfl, Nat.zero_le _, by rw [hdiv]; omega, by rw [hdiv, hnew.1], hnew.2⟩⟩
    | false =>
      simp only [hmatch, Bool.false_eq_true, if_false] at hnew ⊢
      refine ⟨hnew.1, fun hp => ?_⟩
      obtain ⟨m, hm, hle, hodd, hpos, hbm⟩ := hnew.2 hp
      have hlevel : level < m := by
        rcases Nat.eq_or_lt_of_le hle with rfl | hlt
        · -- the bit of the first level was not set before
          exfalso
          have hbefore : s.count / 2 ^ level = 2 * k := by
            have hcount := hc.count_eq
            have hpow := Nat.two_pow_pos level
            apply Nat.div_eq_of_lt_le
            · linarith [show 2 ^ level * (2 * k + 1) = 2 * k * 2 ^ level + 2 ^ level by ring]
            · linarith [show 2 ^ level * (2 * k + 1) = (2 * k + 1) * 2 ^ level by ring]
          omega
        · exact hlt
      have hdiv := div_two_pow_succ hc.count_eq hlevel
      exact ⟨m, hm, Nat.zero_le _, by rw [hdiv]; exact hodd, by rw [hdiv]; exact hpos, hbm⟩

theorem Processed.foldlM {s : MerkleComputation α} (h : Processed hash leaf n p s) (hn : n < 2 ^ 32) (leaves : List α)
    (hlen : s.count + leaves.length ≤ n) (hleaf : ∀ i (hi : i < leaves.length), leaf (s.count + i) = leaves[i]) :
    ∃ s', leaves.foldlM (MerkleComputation.addLeaf hash p) s = some s' ∧ Processed hash leaf n p s' ∧
      s'.count = s.count + leaves.length ∧ s'.pbranch.isSome = s.pbranch.isSome := by
  induction leaves generalizing s with
  | nil => exact ⟨s, rfl, h, rfl, rfl⟩
  | cons a leaves ih =>
    rw [List.length_cons] at hlen
    obtain ⟨s₁, hadd, h₁, hcount₁, hsome₁⟩ := h.addLeaf (by omega) hn
    obtain ⟨s', hfold, h', hcount, hsome⟩ := ih h₁ (by omega) fun i hi => by
      have := hleaf (i + 1) (by simpa using hi)
      rw [hcount₁, Nat.add_assoc, Nat.add_comm 1 i]
      simpa using this
    have ha : leaf s.count = a := hleaf 0 (by simp)
    refine ⟨s', ?_, h', by rw [hcount, hcount₁, List.length_cons]; omega, hsome.trans hsome₁⟩
    rw [List.foldlM_cons, ← ha, hadd]
    exact hfold

/-! ## The sweep -/

/-- `count` has been rounded up from `n` at the levels below `level`, and the node there is the last of its level. -/
structure Swept (n count level k : Nat) : Prop where
  count_eq : count = 2 ^ level * (2 * k + 1)
  le : n ≤ count
  sub_lt : 2 ^ level * (2 * k) < n
  lt : count < 2 * n

theorem Swept.not_lt_width {k : Nat} (hs : Swept n count level k) : ¬ 2 * k + 1 < width n level := by
  rw [lt_width, Nat.not_lt, Nat.mul_comm, ← hs.count_eq]
  exact hs.le

theorem Swept.add_eq {k : Nat} (hs : Swept n count level k) : count + 2 ^ level = 2 ^ (level + 1) * (k + 1) := by
  rw [hs.count_eq]
  ring

theorem Swept.add_lt {k : Nat} (hs : Swept n count level k) (hne : count ≠ 2 ^ level) : count + 2 ^ level < 2 * n := by
  have hk : k ≠ 0 := by
    rintro rfl
    exact hne (by simpa using hs.count_eq)
  obtain ⟨j, rfl⟩ := Nat.exists_eq_succ_of_ne_zero hk
  have hsub := hs.sub_lt
  have hcount := hs.count_eq
  have hpow := Nat.two_pow_pos level
  rw [show 2 ^ level * (2 * (j + 1)) = 2 ^ level * (2 * j) + 2 * 2 ^ level by ring] at hsub
  rw [show 2 ^ level * (2 * (j + 1) + 1) = 2 ^ level * (2 * j) + 3 * 2 ^ level by ring] at hcount
  nlinarith [Nat.zero_le (2 ^ level * (2 * j))]

theorem Swept.climb {k level' k' : Nat} (hs : Swept n count level k) (hne : count ≠ 2 ^ level) (hle : level + 1 ≤ level')
    (hcount : count + 2 ^ level = 2 ^ level' * (2 * k' + 1)) : Swept n (count + 2 ^ level) level' k' := by
  refine ⟨hcount, le_trans hs.le (Nat.le_add_right _ _), ?_, hs.add_lt hne⟩
  have hpow : 2 ^ (level + 1) ≤ 2 ^ level' := Nat.pow_le_pow_right (by norm_num) hle
  rw [pow_succ] at hpow
  have hsub := hs.sub_lt
  have hold := hs.count_eq
  rw [show 2 ^ level * (2 * k + 1) = 2 ^ level * (2 * k) + 2 ^ level by ring] at hold
  rw [show 2 ^ level' * (2 * k' + 1) = 2 ^ level' * (2 * k') + 2 ^ level' by ring] at hcount
  omega

theorem Swept.level_le {k : Nat} (hs : Swept n count level k) (hmax : n ≤ 2 ^ 31) : level ≤ 31 := by
  by_contra hnot
  have hpow : 2 ^ 32 ≤ 2 ^ level := Nat.pow_le_pow_right (by norm_num) (by omega)
  have hle : 2 ^ level ≤ count := by
    rw [hs.count_eq]
    exact Nat.le_mul_of_pos_right _ (by omega)
  have := hs.lt
  omega

theorem Swept.div_eq {k : Nat} (hs : Swept n count level k) (hlt : n < count) : n / 2 ^ level = 2 * k := by
  apply Nat.div_eq_of_lt_le
  · have := hs.sub_lt
    linarith
  · have := hs.count_eq
    linarith

omit [DecidableEq α] in
theorem Tracks.next {k pos : Nat} (h : Tracks hash leaf n p bound kept level matchlevel level pos c)
    (heven : kept / 2 ^ level = 2 * k) : Tracks hash leaf n p bound kept (level + 1) matchlevel level pos c := by
  intro b hb
  have hold := h b hb
  cases hmatch : c.matchh with
  | true => simpa only [hmatch, if_true] using hold
  | false =>
    simp only [hmatch, Bool.false_eq_true, if_false] at hold ⊢
    refine ⟨hold.1, fun hp => ?_⟩
    obtain ⟨m, hm, hle, hodd, hrest⟩ := hold.2 hp
    refine ⟨m, hm, ?_, hodd, hrest⟩
    rcases Nat.eq_or_lt_of_le hle with rfl | hlt
    · omega
    · exact hlt

omit [DecidableEq α] in
theorem Tracks.double {k : Nat} (h : Tracks hash leaf n p bound n (level + 1) matchlevel level (2 * k) c)
    (hs : Swept n count level k) (hh : c.h = node hash leaf n level (2 * k)) :
    Tracks hash leaf n p bound n (level + 1) matchlevel (level + 1) k (c.double hash) := by
  intro b hb
  cases hmatch : c.matchh with
  | true =>
    simp only [MerkleLoop.double, hmatch, if_true, Option.map_eq_some_iff] at hb ⊢
    obtain ⟨b₀, hb₀, rfl⟩ := hb
    have hold := h b₀ hb₀
    simp only [hmatch, if_true] at hold
    refine ⟨by rw [pow_succ, ← Nat.div_div_eq_div_mul, hold.1]; omega, ?_⟩
    rw [branch_succ, hold.1, sibling, if_neg (by omega), if_neg hs.not_lt_width, hold.2, hh]
  | false =>
    simp only [MerkleLoop.double, hmatch, Bool.false_eq_true, if_false] at hb ⊢
    have hold := h b hb
    simpa only [hmatch, Bool.false_eq_true, if_false] using hold

omit [DecidableEq α] in
theorem Tracks.top {pos : Nat} {b : List α} (h : Tracks hash leaf n p bound n (level + 1) matchlevel level pos c)
    (hle : n ≤ 2 ^ level) (hp : p < bound) (hb : c.pbranch = some b) : b = branch hash leaf n p level := by
  have hold := h b hb
  cases hmatch : c.matchh with
  | true =>
    simp only [hmatch, if_true] at hold
    exact hold.2
  | false =>
    -- no hash is kept over the root
    simp only [hmatch, Bool.false_eq_true, if_false] at hold
    obtain ⟨m, -, hlevel, hodd, -⟩ := hold.2 hp
    have hlt : 2 ^ level < 2 ^ m := Nat.pow_lt_pow_right (by norm_num) hlevel
    rw [Nat.div_eq_of_lt (hle.trans_lt hlt)] at hodd
    omega

theorem sweep_spec (hn : 0 < n) (hmax : n ≤ 2 ^ 31) (hp : n ≤ bound) (hkept : Kept hash leaf n n inner) (fuel : Nat) {k : Nat}
    (hs : Swept n count level k) (hfuel : 32 ≤ level + fuel) (hh : c.h = node hash leaf n level (2 * k))
    (ht : Tracks hash leaf n p bound n (level + 1) matchlevel level (2 * k) c) :
    ∃ height c', sweep hash inner matchlevel fuel count level c = some c' ∧ IsHeight n height ∧
      c'.h = node hash leaf n height 0 ∧ c'.pbranch.isSome = c.pbranch.isSome ∧
      (p < n → ∀ b, c'.pbranch = some b → b = branch hash leaf n p height) := by
  induction fuel generalizing count level k c with
  | zero =>
    have := hs.level_le hmax
    omega
  | succ fuel ih =>
    rw [sweep]
    by_cases htop : count = 2 ^ level
    · -- the root
      have hk : k = 0 := by
        have hcount := hs.count_eq
        rw [htop] at hcount
        have := Nat.eq_of_mul_eq_mul_left (Nat.two_pow_pos level) ((Nat.mul_one _).trans hcount)
        omega
      subst hk
      exact ⟨level, c, if_pos htop, ⟨htop ▸ hs.le, htop ▸ hs.lt⟩, hh, rfl, fun hpn b hb =>
        ht.top (htop ▸ hs.le) (hpn.trans_le hp) hb⟩
    · have hadd := hs.add_eq
      have hsub := hs.sub_lt
      have hcount := hs.count_eq
      have hlt := hs.add_lt htop
      have hlevel := hs.level_le hmax
      have hup : (c.double hash).h = node hash leaf n (level + 1) k := by
        rw [node_succ_of_not_lt hs.not_lt_width, ← hh]
        rfl
      have hpow : 2 ^ (level + 1) * k = 2 ^ level * (2 * k) := by ring
      have hpos := Nat.two_pow_pos level
      obtain ⟨level', k', c', hclimb, hc⟩ := climb_spec (32 - (level + 1)) hadd
        (by rw [show level + 1 + (32 - (level + 1)) = 32 by omega]; omega) (by omega)
        (lt_of_le_of_lt hs.le (Nat.lt_add_of_pos_right hpos)) (by omega) hkept hup
        (ht.double hs hh)
      have hs' := hs.climb htop hc.level_le hc.count_eq
      rw [if_neg htop]
      dsimp only
      rw [Nat.mod_eq_of_lt (by omega), hclimb]
      obtain ⟨height, c'', hres, hheight, hh'', hsome, hbranch⟩ := ih hs' (by have := hc.level_le; omega) hc.h_eq
        (hc.tracks.next (hs'.div_eq (by have := hs.le; omega)))
      refine ⟨height, c'', hres, hheight, hh'', hsome.trans (hc.isSome_eq.trans c.isSome_double), hbranch⟩

/-! ## The end of the counter -/

theorem climb_some {left level' : Nat} {c' : MerkleLoop α} (hdvd : 2 ^ level ∣ count)
    (h : climb hash inner matchlevel count left level c = some (level', c')) :
    (∃ k, count = 2 ^ level' * (2 * k + 1)) ∧ level' < level + left := by
  induction left generalizing level c with
  | zero => cases h
  | succ left ih =>
    obtain ⟨m, rfl⟩ := hdvd
    rw [climb, testBit_mul_self] at h
    obtain ⟨k, rfl | rfl⟩ := Nat.even_or_odd' m
    · rw [if_neg (by simp)] at h
      obtain ⟨hk, hlt⟩ := ih ⟨k, by ring⟩ h
      exact ⟨hk, by omega⟩
    · rw [if_pos (by simp)] at h
      cases h
      exact ⟨⟨k, rfl⟩, by omega⟩

theorem climb_add_lt {k left level' : Nat} {c' : MerkleLoop α} (hhigh : count < 2 ^ 32)
    (hcount : count = 2 ^ level * (2 * k + 1)) (hlevel : level < 32)
    (h : climb hash inner matchlevel ((count + 2 ^ level) % 2 ^ 32) left (level + 1) c = some (level', c')) :
    count + 2 ^ level < 2 ^ 32 ∧ (∃ k', count + 2 ^ level = 2 ^ level' * (2 * k' + 1)) ∧ level' < level + 1 + left := by
  have hnext : count + 2 ^ level = 2 ^ (level + 1) * (k + 1) := by
    rw [hcount]
    ring
  have hwrap : 2 ^ (level + 1) ∣ 2 ^ 32 := pow_dvd_pow 2 (by omega)
  have hdvd : 2 ^ (level + 1) ∣ (count + 2 ^ level) % 2 ^ 32 := (Nat.dvd_mod_iff hwrap).mpr ⟨k + 1, hnext⟩
  obtain ⟨⟨k', hk'⟩, hlt⟩ := climb_some hdvd h
  have hpos : 0 < (count + 2 ^ level) % 2 ^ 32 := by
    rw [hk']
    exact Nat.mul_pos (Nat.two_pow_pos _) (by omega)
  have hsmall : count + 2 ^ level < 2 ^ 32 := by
    by_contra hge
    obtain ⟨q, hq⟩ := hwrap
    rw [hq] at hhigh hge hpos
    rw [hnext] at hge hpos
    have hqk : q ≤ k + 1 := Nat.le_of_mul_le_mul_left (Nat.not_lt.mp hge) (Nat.two_pow_pos _)
    have hkq : k < q := by
      apply Nat.lt_of_mul_lt_mul_left (a := 2 ^ (level + 1))
      calc 2 ^ (level + 1) * k ≤ count := by rw [hcount, pow_succ]; nlinarith [Nat.two_pow_pos level]
        _ < 2 ^ (level + 1) * q := hhigh
    obtain rfl : q = k + 1 := by omega
    simp at hpos
  rw [Nat.mod_eq_of_lt hsmall] at hk'
  exact ⟨hsmall, ⟨k', hk'⟩, hlt⟩

theorem sweep_eq_none (fuel : Nat) {k : Nat} (hlow : 2 ^ 31 < count) (hhigh : count < 2 ^ 32)
    (hcount : count = 2 ^ level * (2 * k + 1)) (hlevel : level < 32) :
    sweep hash inner matchlevel fuel count level c = none := by
  induction fuel generalizing count level k c with
  | zero => rfl
  | succ fuel ih =>
    have hpow : 2 ^ level ≤ 2 ^ 31 := Nat.pow_le_pow_right (by norm_num) (by omega)
    rw [sweep, if_neg (by omega)]
    dsimp only
    cases hclimb : climb hash inner matchlevel ((count + 2 ^ level) % 2 ^ 32) (32 - (level + 1)) (level + 1) (c.double hash) with
    | none => rfl
    | some r =>
      obtain ⟨level', c'⟩ := r
      obtain ⟨hsmall, ⟨k', hk'⟩, hlt⟩ := climb_add_lt hhigh hcount hlevel hclimb
      rw [Nat.mod_eq_of_lt hsmall]
      exact ih (lt_of_lt_of_le hlow (Nat.le_add_right _ _)) hsmall hk' (by omega)

end MerkleComputation

theorem firstLevel_spec {count : Nat} (fuel : Nat) {level m : Nat} (hcount : count = 2 ^ level * (m + 1))
    (hfuel : count < 2 ^ (level + fuel)) :
    ∃ k, count = 2 ^ firstLevel count fuel level * (2 * k + 1) ∧ firstLevel count fuel level < level + fuel := by
  induction fuel generalizing level m with
  | zero =>
    rw [hcount, Nat.add_zero] at hfuel
    exact absurd hfuel (Nat.not_lt.mpr (Nat.le_mul_of_pos_right _ m.succ_pos))
  | succ fuel ih =>
    have hbit := MerkleComputation.testBit_mul_self level (m + 1)
    rw [← hcount] at hbit
    rw [firstLevel, hbit]
    obtain ⟨k, hk | hk⟩ := Nat.even_or_odd' m
    · rw [if_pos (by simp; omega)]
      exact ⟨k, by rw [hcount, hk], by omega⟩
    · rw [if_neg (by simp; omega)]
      obtain ⟨j, hj, hlt⟩ := ih (show count = 2 ^ (level + 1) * (k + 1) by rw [hcount, hk]; ring)
        (by rwa [Nat.add_right_comm])
      exact ⟨j, hj, by omega⟩

/-! ## The computation -/

variable [Zero α] {leaves : List α} (p : Nat) (pbranch : Bool)

variable (hash) in
theorem foldlM_addLeaf (hne : leaves ≠ []) (hmax : leaves.length < 2 ^ 32) : ∃ s level k,
    merkleComputation hash leaves p pbranch = (MerkleComputation.sweep hash s.inner s.matchlevel 32 s.count level
        ⟨s.inner level, s.matchlevel == some level, s.mutated, s.pbranch⟩).map (fun c => (c.h, s.mutated, c.pbranch)) ∧
      MerkleComputation.Processed hash (fun i => leaves.getD i 0) leaves.length p s ∧ s.count = leaves.length ∧
      s.pbranch.isSome = pbranch ∧ s.count = 2 ^ level * (2 * k + 1) ∧ level < 32 := by
  have hpos : 0 < leaves.length := List.length_pos_iff.mpr hne
  have hinit : MerkleComputation.Processed hash (fun i => leaves.getD i 0) leaves.length p
      ⟨0, fun _ => 0, none, false, if pbranch then some [] else none⟩ := by
    refine ⟨fun l k hl => by simp at hl, ?_, fun b hb => ⟨fun _ => ⟨rfl, ?_⟩, fun hp => absurd hp (by simp)⟩⟩
    · simp only [Bool.false_eq_true, false_iff]
      rintro ⟨l, k, hle, -⟩
      have hpos := Nat.mul_pos (Nat.two_pow_pos l) (show 0 < 2 * k + 2 by omega)
      exact absurd hpos (Nat.not_lt.mpr hle)
    · dsimp only at hb
      split at hb
      · exact (Option.some.inj hb).symm
      · cases hb
  obtain ⟨s, hfold, hs, hcount, hsome⟩ := hinit.foldlM hmax leaves (by simp) fun i hi => by simp [hi]
  simp only [Nat.zero_add] at hcount
  obtain ⟨k, hk, hlevel⟩ := @firstLevel_spec s.count 32 0 (s.count - 1) (by omega) (by omega)
  refine ⟨s, firstLevel s.count 32 0, k, ?_, hs, hcount, ?_, hk, by omega⟩
  · rw [merkleComputation, if_neg hne]
    dsimp only
    rw [hfold]
  · rw [hsome]
    cases pbranch <;> rfl

variable (hash) in
theorem merkleComputation_eq (hne : leaves ≠ []) (hmax : leaves.length ≤ 2 ^ 31) : ∃ height mutated b,
    IsHeight leaves.length height ∧ merkleComputation hash leaves p pbranch =
        some (node hash (fun i => leaves.getD i 0) leaves.length height 0, mutated, b) ∧
      (mutated = true ↔ FullPair hash (fun i => leaves.getD i 0) leaves.length leaves.length) ∧ b.isSome = pbranch ∧
      (p < leaves.length → ∀ b', b = some b' → b' = branch hash (fun i => leaves.getD i 0) leaves.length p height) := by
  obtain ⟨s, level, k, heq, hs, hcount, hsome, hk, hlevel⟩ := foldlM_addLeaf hash p pbranch hne (by omega)
  have hpos : 0 < leaves.length := List.length_pos_iff.mpr hne
  have hdiv : leaves.length / 2 ^ level = 2 * k + 1 := by
    rw [← hcount, hk, Nat.mul_div_cancel_left _ (Nat.two_pow_pos level)]
  have hkept := hs.kept
  rw [hcount] at hkept
  have hswept : MerkleComputation.Swept leaves.length s.count level k := by
    refine ⟨hk, hcount.ge, ?_, by omega⟩
    rw [← hcount, hk]
    exact Nat.mul_lt_mul_of_pos_left (by omega) (Nat.two_pow_pos level)
  have ht : MerkleComputation.Tracks hash (fun i => leaves.getD i 0) leaves.length p leaves.length leaves.length (level + 1)
      s.matchlevel level (2 * k) ⟨s.inner level, s.matchlevel == some level, s.mutated, s.pbranch⟩ := by
    intro b hb
    have hold := hs.waits b hb
    rw [hcount] at hold
    by_cases hhere : s.matchlevel = some level
    · -- the hash that the sweep starts with depends on the leaf
      simp only [hhere, beq_self_eq_true, if_true] at hold ⊢
      have hp : p < leaves.length := by
        by_contra hp
        have hnone := (hold.1 (Nat.not_lt.mp hp)).1
        cases hnone
      obtain ⟨m, hm, -, -, hp', hb'⟩ := hold.2 hp
      obtain rfl : level = m := Option.some.inj hm
      exact ⟨by omega, hb'⟩
    · have hfalse : (s.matchlevel == some level) = false := by simpa using hhere
      simp only [hfalse, Bool.false_eq_true, if_false]
      refine ⟨hold.1, fun hp => ?_⟩
      obtain ⟨m, hm, -, hodd, hrest⟩ := hold.2 hp
      refine ⟨m, hm, ?_, hodd, hrest⟩
      -- the bits below are zero
      rcases lt_trichotomy m level with hlow | rfl | hhigh
      · exfalso
        obtain ⟨d, rfl⟩ := Nat.exists_eq_add_of_lt hlow
        rw [← hcount, hk, show 2 ^ (m + d + 1) * (2 * k + 1) = 2 ^ m * (2 * (2 ^ d * (2 * k + 1))) by ring,
          Nat.mul_div_cancel_left _ (Nat.two_pow_pos m)] at hodd
        omega
      · exact absurd hm hhere
      · exact hhigh
  obtain ⟨height, c, hsweep, hheight, hh, hsome', hbranch⟩ :=
    MerkleComputation.sweep_spec hpos hmax (Nat.le_refl _) hkept 32 hswept (by omega) (hkept level k hdiv) ht
  refine ⟨height, s.mutated, c.pbranch, hheight, ?_, ?_, hsome'.trans hsome, hbranch⟩
  · rw [heq, hsweep, Option.map_some, hh]
  · rw [hs.mutated, hcount]

variable (hash) in
theorem merkleComputation_eq_none (hmin : 2 ^ 31 < leaves.length) (hmax : leaves.length < 2 ^ 32) :
    merkleComputation hash leaves p pbranch = none := by
  have hne : leaves ≠ [] := by
    rintro rfl
    simp at hmin
  obtain ⟨s, level, k, heq, -, hcount, -, hk, hlevel⟩ := foldlM_addLeaf hash p pbranch hne hmax
  rw [heq, MerkleComputation.sweep_eq_none 32 (by omega) (by omega) hk hlevel]
  rfl

end DigiWage
