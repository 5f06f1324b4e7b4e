import DigiWage.Merkle.Partial

/-!
# Roots and branches of lists of leaves

`ComputeMerkleRoot`, `ComputeMerkleBranch` and `ComputeMerkleRootFromBranch` of `consensus/merkle.cpp` beside the tree that
is built row by row. `merkle.cpp` says that it is "limited to 2^32 leaves"; over `2 ^ 31` leaves the last sweep shifts by 32
bits.
-/

namespace DigiWage

open Lib Lib.Merkle

variable {α : Type} [DecidableEq α] [Zero α] (hash : α → α → α)

/-! ## Roots -/

/-- `ComputeMerkleRoot` returns the root of the tree that is built row by row, and tells whether two neighbours that were
paired are equal. -/
def RootExact (leaves : List α) : Prop :=
  ∃ root mutated, checkedMerkleRoot hash leaves = some (root, mutated) ∧ Lib.Merkle.root hash leaves = some root ∧
    (mutated = true ↔ Duplicated hash leaves)

/-- Two neighbours that are paired are equal, and there are leaves for all of the subtrees below them. -/
def FullDuplicated (leaves : List α) : Prop :=
  ∃ h i a, 2 ^ h * (2 * i + 2) ≤ leaves.length ∧ (level hash leaves h)[2 * i]? = some a ∧
    (level hash leaves h)[2 * i + 1]? = some a

variable {hash} {leaves : List α} {p : Nat}

omit [DecidableEq α] in
theorem getD_eq_getElem (i : Nat) (hi : i < leaves.length) : leaves.getD i 0 = leaves[i] := by simp [hi]

omit [DecidableEq α] in
theorem fullDuplicated_iff :
    FullDuplicated hash leaves ↔ FullPair hash (fun i => leaves.getD i 0) leaves.length leaves.length := by
  have hwidth : ∀ {h i}, 2 ^ h * (2 * i + 2) ≤ leaves.length → 2 * i + 1 < width leaves.length h := by
    intro h i hle
    rw [lt_width]
    have hpow := Nat.two_pow_pos h
    linarith [show 2 ^ h * (2 * i + 2) = (2 * i + 1) * 2 ^ h + 2 ^ h by ring]
  constructor
  · rintro ⟨h, i, a, hle, hleft, hright⟩
    have hlt := hwidth hle
    rw [getElem?_level getD_eq_getElem hlt] at hright
    rw [getElem?_level getD_eq_getElem (by omega)] at hleft
    exact ⟨h, i, hle, Option.some.inj (hleft.trans hright.symm)⟩
  · rintro ⟨h, i, hle, heq⟩
    have hlt := hwidth hle
    refine ⟨h, i, _, hle, getElem?_level getD_eq_getElem (by omega), ?_⟩
    rw [heq]
    exact getElem?_level getD_eq_getElem hlt

omit [DecidableEq α] [Zero α] in
theorem FullDuplicated.duplicated (h : FullDuplicated hash leaves) : Duplicated hash leaves := by
  obtain ⟨l, i, a, -, hleft, hright⟩ := h
  exact ⟨l, i, a, hleft, hright⟩

omit [DecidableEq α] in
theorem collision_of_duplicated (h : Duplicated hash leaves) (hfull : ¬ FullDuplicated hash leaves) :
    ∃ u v x y, (u, v) ≠ (x, y) ∧ hash u v = hash x y := by
  rw [fullDuplicated_iff] at hfull
  obtain ⟨l, k, hlt, heq⟩ := (duplicated_iff getD_eq_getElem).mp h
  have hcut : leaves.length < (2 * k + 1 + 1) * 2 ^ l := by
    by_contra hle
    exact hfull ⟨l, k, by linarith [show 2 ^ l * (2 * k + 2) = (2 * k + 1 + 1) * 2 ^ l by ring], heq⟩
  have hleft : (2 * k + 1) * 2 ^ l ≤ leaves.length := Nat.le_of_lt hlt
  exact (collision_of_eq hleft (lt_width.mpr hlt) hcut heq).resolve_left hfull

/-- The root is exact for up to `2 ^ 31` leaves in which neighbours are not equal only where the right one is cut short; and
where they are, two pairs have the same hash. -/
theorem rootExact_iff (hash : α → α → α) {leaves : List α} (hne : leaves ≠ []) (hmax : leaves.length < 2 ^ 32) :
    (RootExact hash leaves ↔
      leaves.length ≤ 2 ^ 31 ∧ (Duplicated hash leaves → FullDuplicated hash leaves)) ∧
    (Duplicated hash leaves → ¬ FullDuplicated hash leaves → ∃ u v x y, (u, v) ≠ (x, y) ∧ hash u v = hash x y) := by
  refine ⟨?_, collision_of_duplicated⟩
  rcases Nat.lt_or_ge (2 ^ 31) leaves.length with hlarge | hsmall
  · have hnone : checkedMerkleRoot hash leaves = none := by
      rw [checkedMerkleRoot, merkleComputation_eq_none hash _ _ hlarge hmax]
      rfl
    constructor
    · rintro ⟨root, mutated, hroot, -⟩
      rw [hnone] at hroot
      cases hroot
    · rintro ⟨hle, -⟩
      omega
  · obtain ⟨height, mutated, b, hheight, hres, hflag, -⟩ := merkleComputation_eq hash (2 ^ 32 - 1) false hne hsmall
    have hroot : checkedMerkleRoot hash leaves =
        some (node hash (fun i => leaves.getD i 0) leaves.length height 0, mutated) := by
      rw [checkedMerkleRoot, hres]
      rfl
    rw [← fullDuplicated_iff] at hflag
    constructor
    · rintro ⟨root, mutated', hroot', -, hmutated⟩
      rw [hroot] at hroot'
      cases hroot'
      exact ⟨hsmall, fun h => hflag.mp (hmutated.mpr h)⟩
    · rintro ⟨-, h⟩
      exact ⟨_, _, hroot, root_eq getD_eq_getElem hheight, hflag.trans ⟨FullDuplicated.duplicated, h⟩⟩

/-- Two equal leaves. -/
theorem rootExact_iff_equalLeaves : RootExact hashPair [5, 5] :=
  ((rootExact_iff hashPair (by decide) (by decide)).1).mpr ⟨by decide, fun _ => ⟨0, 0, 5, by decide, rfl, rfl⟩⟩

/-- A list of `2 ^ 31 + 1` leaves has no root. -/
theorem not_rootExact : ¬ ∀ leaves : List Uint256, leaves ≠ [] → leaves.length < 2 ^ 32 → RootExact hashPair leaves := by
  intro hall
  have hlen : (List.replicate (2 ^ 31 + 1) (0 : Uint256)).length = 2 ^ 31 + 1 := List.length_replicate
  have hne : List.replicate (2 ^ 31 + 1) (0 : Uint256) ≠ [] := by
    intro h
    rw [h] at hlen
    cases hlen
  obtain ⟨root, mutated, hroot, -⟩ := hall _ hne (by rw [hlen]; norm_num)
  rw [checkedMerkleRoot, merkleComputation_eq_none hashPair _ _ (by rw [hlen]; norm_num) (by rw [hlen]; norm_num)] at hroot
  cases hroot

/-! ## Branches -/

omit [DecidableEq α] [Zero α] in
theorem foldl_branch {leaf : Nat → α} {n p : Nat} (hp : p < n) (h : Nat) :
    (branch hash leaf n p h).foldl (fun (r : α × Nat) it =>
      (if r.2 % 2 = 1 then hash it r.1 else hash r.1 it, r.2 / 2)) (leaf p, p) =
        (node hash leaf n h (p / 2 ^ h), p / 2 ^ h) := by
  induction h with
  | zero => simp [branch_zero, node]
  | succ h ih =>
    have hlt : p / 2 ^ h < width n h := by
      rw [lt_width]
      exact lt_of_le_of_lt (Nat.div_mul_le_self p _) hp
    rw [branch_succ, List.foldl_append, ih, List.foldl_cons, List.foldl_nil, pow_succ, ← Nat.div_div_eq_div_mul,
      node_sibling hlt]

/-- The branch that `ComputeMerkleBranch` returns for the leaf at `p` leads from it to the root. -/
def LeadsToRoot (hash : α → α → α) (leaves : List α) (p : Nat) : Prop :=
  ∃ leaf vMerkleBranch root mutated, leaves[p]? = some leaf ∧ computeMerkleBranch hash leaves p = some vMerkleBranch ∧
    checkedMerkleRoot hash leaves = some (root, mutated) ∧ computeMerkleRootFromBranch hash leaf vMerkleBranch p = root

/-- The branches of a list lead to its root exactly when it has no more than `2 ^ 31` leaves. -/
theorem leadsToRoot_iff (hash : α → α → α) {leaves : List α} {p : Nat} (hp : p < leaves.length)
    (hmax : leaves.length < 2 ^ 32) : LeadsToRoot hash leaves p ↔ leaves.length ≤ 2 ^ 31 := by
  constructor
  · rintro ⟨leaf, vMerkleBranch, root, mutated, -, -, hroot, -⟩
    by_contra hlarge
    rw [checkedMerkleRoot, merkleComputation_eq_none hash _ _ (Nat.not_le.mp hlarge) hmax] at hroot
    cases hroot
  · intro hsmall
    have hne : leaves ≠ [] := by
      rintro rfl
      cases hp
    obtain ⟨height, mutated, b, hheight, hres, -⟩ := merkleComputation_eq hash (2 ^ 32 - 1) false hne hsmall
    obtain ⟨height', mutated', b', hheight', hres', -, hsome, hbranch⟩ := merkleComputation_eq hash p true hne hsmall
    obtain rfl := isHeight_unique hheight hheight'
    obtain ⟨vMerkleBranch, rfl⟩ := Option.isSome_iff_exists.mp hsome
    obtain rfl := hbranch hp vMerkleBranch rfl
    refine ⟨leaves[p], branch hash (fun i => leaves.getD i 0) leaves.length p height,
      node hash (fun i => leaves.getD i 0) leaves.length height 0, mutated, List.getElem?_eq_getElem hp, ?_, ?_, ?_⟩
    · rw [computeMerkleBranch, hres']
      rfl
    · rw [checkedMerkleRoot, hres]
      rfl
    · have hfold := @foldl_branch _ hash (fun i => leaves.getD i 0) _ _ hp height
      rw [getD_eq_getElem p hp] at hfold
      rw [computeMerkleRootFromBranch, hfold, Nat.div_eq_of_lt (lt_of_lt_of_le hp hheight.1)]

/-- The third of three leaves, which is paired with itself. -/
theorem leadsToRoot_iff_third : LeadsToRoot hashPair [5, 6, 7] 2 :=
  (leadsToRoot_iff hashPair (by decide) (by decide)).mpr (by decide)

/-- A list of `2 ^ 31 + 1` leaves has no branches. -/
theorem not_leadsToRoot : ¬ ∀ (leaves : List Uint256) (p : Nat), leaves.length < 2 ^ 32 → p < leaves.length →
    LeadsToRoot hashPair leaves p := by
  intro hall
  have hlen : (List.replicate (2 ^ 31 + 1) (0 : Uint256)).length = 2 ^ 31 + 1 := List.length_replicate
  obtain ⟨leaf, vMerkleBranch, root, mutated, -, -, hroot, -⟩ :=
    hall (List.replicate (2 ^ 31 + 1) 0) 0 (by rw [hlen]; norm_num) (by rw [hlen]; norm_num)
  rw [checkedMerkleRoot, merkleComputation_eq_none hashPair _ _ (by rw [hlen]; norm_num) (by rw [hlen]; norm_num)] at hroot
  cases hroot

end DigiWage
