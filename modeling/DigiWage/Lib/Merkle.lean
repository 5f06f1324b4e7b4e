import Mathlib.Algebra.Order.Ring.Nat
import Mathlib.Tactic.Ring
import Mathlib.Tactic.Linarith

/-!
# Merkle trees

The tree over a row of leaves in which a node is the hash of its two children, and the last node of a level of odd width
is the hash of its only child with itself. Levels are counted from the leaves, and positions from the left.

* `getElem?_level`, `root_eq`: the same tree as rows, each made of the one below by pairing neighbours.
* `branch`: the siblings on the way up from a leaf, with which the root can be computed (`node_sibling`).
* `collision_of_eq`: when a node whose subtree is cut short equals a full one, two siblings with full subtrees are equal,
  or two pairs have the same hash.
-/

namespace DigiWage.Lib.Merkle

/-! ## Levels -/

/-- The number of nodes at level `h` over `n` leaves. -/
def width (n h : Nat) : Nat := (n + 2 ^ h - 1) / 2 ^ h

theorem lt_width {n h pos : Nat} : pos < width n h ↔ pos * 2 ^ h < n := by
  have hpos := Nat.two_pow_pos h
  rw [width, Nat.lt_iff_add_one_le, Nat.le_div_iff_mul_le hpos, Nat.succ_mul]
  omega

theorem width_zero (n : Nat) : width n 0 = n := by simp [width]

theorem width_succ (n h : Nat) : width n (h + 1) = (width n h + 1) / 2 := by
  apply eq_of_forall_lt_iff
  intro pos
  have hleft : pos < width n (h + 1) ↔ 2 * pos < width n h := by
    rw [lt_width, lt_width, show pos * 2 ^ (h + 1) = 2 * pos * 2 ^ h by ring]
  rw [hleft]
  omega

theorem left_lt_width {n h pos : Nat} (hlt : pos < width n (h + 1)) : 2 * pos < width n h := by
  rw [width_succ] at hlt
  omega

theorem width_pos {n h : Nat} (hn : 0 < n) : 0 < width n h := by
  rw [lt_width]
  omega

theorem one_lt_width {n h : Nat} : 1 < width n h ↔ 2 ^ h < n := by rw [lt_width, one_mul]

/-- The level of the root over `n` leaves: the first one with no second node. -/
def IsHeight (n h : Nat) : Prop := n ≤ 2 ^ h ∧ 2 ^ h < 2 * n

theorem isHeight_unique {n a b : Nat} (ha : IsHeight n a) (hb : IsHeight n b) : a = b := by
  have le : ∀ {a b}, IsHeight n a → IsHeight n b → a ≤ b := by
    intro a b ha hb
    have h : 2 ^ a < 2 ^ (b + 1) := by
      rw [pow_succ]
      linarith [ha.2, hb.1]
    exact Nat.lt_succ_iff.mp ((Nat.pow_lt_pow_iff_right (by norm_num)).mp h)
  exact Nat.le_antisymm (le ha hb) (le hb ha)

/-! ## Nodes -/

section node

variable {α : Type*} (hash : α → α → α) (leaf : Nat → α) (n : Nat)

/-- The node at level `h` and position `pos` over the first `n` leaves. -/
def node : Nat → Nat → α
  | 0, pos => leaf pos
  | h + 1, pos => hash (node h (2 * pos)) (node h (if 2 * pos + 1 < width n h then 2 * pos + 1 else 2 * pos))

variable {hash leaf n} {h pos : Nat}

theorem node_succ_of_lt (hlt : 2 * pos + 1 < width n h) :
    node hash leaf n (h + 1) pos = hash (node hash leaf n h (2 * pos)) (node hash leaf n h (2 * pos + 1)) := by
  rw [node, if_pos hlt]

theorem node_succ_of_not_lt (hlt : ¬ 2 * pos + 1 < width n h) :
    node hash leaf n (h + 1) pos = hash (node hash leaf n h (2 * pos)) (node hash leaf n h (2 * pos)) := by
  rw [node, if_neg hlt]

end node

/-! ## Rows -/

section rows

variable {α : Type*} (hash : α → α → α)

/-- The row above a row: neighbours are paired, and the last one of an odd row is paired with itself. -/
def pairUp : List α → List α
  | a :: b :: l => hash a b :: pairUp l
  | [a] => [hash a a]
  | [] => []

/-- The row at level `h` over the leaves. -/
def level (leaves : List α) : Nat → List α
  | 0 => leaves
  | h + 1 => pairUp hash (level leaves h)

variable {hash}

theorem length_pairUp (l : List α) : (pairUp hash l).length = (l.length + 1) / 2 := by
  fun_induction pairUp hash l with
  | case1 a b l ih =>
    simp only [List.length_cons, ih]
    omega
  | case2 a => simp
  | case3 => simp

variable (hash)

/-- The root over the leaves: the only node of the first row that has no second one. -/
def root : List α → Option α
  | [] => none
  | [a] => some a
  | a :: b :: l => root (pairUp hash (a :: b :: l))
termination_by l => l.length
decreasing_by
  rw [length_pairUp]
  simp only [List.length_cons]
  omega

/-- Two neighbours that are paired are equal, at some level. -/
def Duplicated (leaves : List α) : Prop :=
  ∃ h i a, (level hash leaves h)[2 * i]? = some a ∧ (level hash leaves h)[2 * i + 1]? = some a

variable {hash}

theorem getElem?_pairUp (l : List α) (i : Nat) :
    (pairUp hash l)[i]? = l[2 * i]?.map fun a => hash a (l[2 * i + 1]?.getD a) := by
  fun_induction pairUp hash l generalizing i with
  | case1 a b l ih =>
    cases i with
    | zero => rfl
    | succ i => simpa [Nat.mul_succ] using ih i
  | case2 a =>
    cases i with
    | zero => rfl
    | succ i => simp [Nat.mul_succ]
  | case3 => simp

theorem length_level (leaves : List α) (h : Nat) : (level hash leaves h).length = width leaves.length h := by
  induction h with
  | zero => rw [width_zero, level]
  | succ h ih => rw [level, length_pairUp, ih, width_succ]

theorem getElem?_level {leaves : List α} {leaf : Nat → α} (hleaf : ∀ i (hi : i < leaves.length), leaf i = leaves[i])
    {h pos : Nat} (hlt : pos < width leaves.length h) :
    (level hash leaves h)[pos]? = some (node hash leaf leaves.length h pos) := by
  induction h generalizing pos with
  | zero =>
    rw [width_zero] at hlt
    rw [level, node, hleaf pos hlt, List.getElem?_eq_getElem hlt]
  | succ h ih =>
    rw [level, getElem?_pairUp, ih (left_lt_width hlt), Option.map_some]
    by_cases hright : 2 * pos + 1 < width leaves.length h
    · rw [ih hright, node_succ_of_lt hright]
      rfl
    · rw [node_succ_of_not_lt hright, List.getElem?_eq_none (by rw [length_level]; omega)]
      rfl

theorem getElem?_level_eq_none {leaves : List α} {h pos : Nat} (hlt : ¬ pos < width leaves.length h) :
    (level hash leaves h)[pos]? = none :=
  List.getElem?_eq_none (by rw [length_level]; omega)

theorem duplicated_iff {leaves : List α} {leaf : Nat → α} (hleaf : ∀ i (hi : i < leaves.length), leaf i = leaves[i]) :
    Duplicated hash leaves ↔ ∃ h k, (2 * k + 1) * 2 ^ h < leaves.length ∧
      node hash leaf leaves.length h (2 * k) = node hash leaf leaves.length h (2 * k + 1) := by
  constructor
  · rintro ⟨h, k, a, hleft, hright⟩
    have hlt : 2 * k + 1 < width leaves.length h := by
      by_contra hnot
      rw [getElem?_level_eq_none hnot] at hright
      cases hright
    rw [getElem?_level hleaf hlt] at hright
    rw [getElem?_level hleaf (by omega)] at hleft
    exact ⟨h, k, lt_width.mp hlt, Option.some.inj (hleft.trans hright.symm)⟩
  · rintro ⟨h, k, hlt, heq⟩
    have hlt := lt_width.mpr hlt
    refine ⟨h, k, _, getElem?_level hleaf (by omega), ?_⟩
    rw [heq]
    exact getElem?_level hleaf hlt

theorem root_pairUp {l : List α} (hlen : 1 < l.length) : root hash l = root hash (pairUp hash l) := by
  match l, hlen with
  | a :: b :: l, _ => rw [root]

theorem root_level {leaves : List α} (h : Nat) (hlow : ∀ j < h, 2 ^ j < leaves.length) :
    root hash leaves = root hash (level hash leaves h) := by
  induction h with
  | zero => rfl
  | succ h ih =>
    rw [ih fun j hj => hlow j (by omega), level]
    apply root_pairUp
    rw [length_level]
    exact one_lt_width.mpr (hlow h (Nat.lt_succ_self h))

theorem root_eq {leaves : List α} {leaf : Nat → α} (hleaf : ∀ i (hi : i < leaves.length), leaf i = leaves[i]) {h : Nat}
    (hh : IsHeight leaves.length h) : root hash leaves = some (node hash leaf leaves.length h 0) := by
  have hpos : 0 < leaves.length := by
    have := hh.2
    have := Nat.two_pow_pos h
    omega
  have hlow : ∀ j < h, 2 ^ j < leaves.length := by
    intro j hj
    have hpow : 2 ^ (j + 1) ≤ 2 ^ h := Nat.pow_le_pow_right (by norm_num) hj
    rw [pow_succ] at hpow
    have := hh.2
    omega
  have hone : (level hash leaves h).length = 1 := by
    have hsecond : ¬ 1 < width leaves.length h := by
      rw [one_lt_width]
      have := hh.1
      omega
    rw [length_level]
    have := width_pos (h := h) hpos
    omega
  obtain ⟨a, ha⟩ := List.length_eq_one_iff.mp hone
  have hnode : (level hash leaves h)[0]? = some (node hash leaf leaves.length h 0) := getElem?_level hleaf (width_pos hpos)
  rw [ha] at hnode
  rw [root_level h hlow, ha, root]
  exact hnode

end rows

/-! ## Branches -/

section branch

variable {α : Type*} (hash : α → α → α) (leaf : Nat → α) (n : Nat)

/-- The position of the node that the node at `pos` is paired with. -/
def sibling (h pos : Nat) : Nat := if pos % 2 = 1 then pos - 1 else if pos + 1 < width n h then pos + 1 else pos

/-- What the nodes above the leaf at `p` are paired with, below level `h`. -/
def branch (p h : Nat) : List α := (List.range h).map fun l => node hash leaf n l (sibling n l (p / 2 ^ l))

variable {hash leaf n}

theorem branch_zero (p : Nat) : branch hash leaf n p 0 = [] := rfl

theorem branch_succ (p h : Nat) :
    branch hash leaf n p (h + 1) = branch hash leaf n p h ++ [node hash leaf n h (sibling n h (p / 2 ^ h))] := by
  simp [branch, List.range_succ]

theorem node_sibling {h pos : Nat} (hlt : pos < width n h) : node hash leaf n (h + 1) (pos / 2) =
    if pos % 2 = 1 then hash (node hash leaf n h (sibling n h pos)) (node hash leaf n h pos)
    else hash (node hash leaf n h pos) (node hash leaf n h (sibling n h pos)) := by
  obtain ⟨k, rfl | rfl⟩ := Nat.even_or_odd' pos
  · rw [show 2 * k / 2 = k by omega, if_neg (by omega), sibling, if_neg (by omega), node]
  · rw [show (2 * k + 1) / 2 = k by omega, if_pos (by omega), sibling, if_pos (by omega), node_succ_of_lt hlt]
    rfl

end branch

/-! ## Equal nodes -/

section full

variable {α : Type*} (hash : α → α → α) (leaf : Nat → α) (n : Nat)

/-- Two siblings over full subtrees of the first `count` leaves are equal. -/
def FullPair (count : Nat) : Prop :=
  ∃ h k, 2 ^ h * (2 * k + 2) ≤ count ∧ node hash leaf n h (2 * k) = node hash leaf n h (2 * k + 1)

variable {hash leaf n}

theorem collision_of_eq {h a b : Nat} (hfull : (a + 1) * 2 ^ h ≤ n) (hlt : b < width n h) (hcut : n < (b + 1) * 2 ^ h)
    (heq : node hash leaf n h a = node hash leaf n h b) :
    FullPair hash leaf n n ∨ ∃ u v x y, (u, v) ≠ (x, y) ∧ hash u v = hash x y := by
  induction h generalizing a b with
  | zero =>
    rw [width_zero] at hlt
    omega
  | succ h ih =>
    have hpow : 2 ^ (h + 1) = 2 * 2 ^ h := by ring
    have hlast : (2 * a + 1 + 1) * 2 ^ h ≤ n := by linarith [show (2 * a + 1 + 1) * 2 ^ h = (a + 1) * 2 ^ (h + 1) by ring]
    have hright : 2 * a + 1 < width n h := by
      rw [lt_width]
      have := Nat.two_pow_pos h
      linarith [show (2 * a + 1 + 1) * 2 ^ h = (2 * a + 1) * 2 ^ h + 2 ^ h by ring]
    rw [node_succ_of_lt hright] at heq
    by_cases hb : 2 * b + 1 < width n h
    · rw [node_succ_of_lt hb] at heq
      by_cases hpair : (node hash leaf n h (2 * a), node hash leaf n h (2 * a + 1)) =
          (node hash leaf n h (2 * b), node hash leaf n h (2 * b + 1))
      · -- the right child is cut short as well
        exact ih hlast hb (by linarith [show (2 * b + 1 + 1) * 2 ^ h = (b + 1) * 2 ^ (h + 1) by ring]) (Prod.ext_iff.mp hpair).2
      · exact Or.inr ⟨_, _, _, _, hpair, heq⟩
    · rw [node_succ_of_not_lt hb] at heq
      by_cases hpair : (node hash leaf n h (2 * a), node hash leaf n h (2 * a + 1)) =
          (node hash leaf n h (2 * b), node hash leaf n h (2 * b))
      · -- both children equal the one that is paired with itself
        obtain ⟨hleft, hsame⟩ := Prod.ext_iff.mp hpair
        exact Or.inl ⟨h, a, by linarith, hleft.trans hsame.symm⟩
      · exact Or.inr ⟨_, _, _, _, hpair, heq⟩

end full

/-! ## The leaves below a node -/

section slice

variable {β : Type*}

/-- The leaves of `l` below the node at level `h` and position `pos`. -/
def slice (l : List β) (h pos : Nat) : List β := (l.drop (pos * 2 ^ h)).take (2 ^ h)

variable {l : List β} {h pos : Nat}

theorem slice_zero (hlt : pos < l.length) : slice l 0 pos = [l[pos]] := by
  rw [slice, pow_zero, mul_one, List.drop_eq_getElem_cons hlt]
  rfl

theorem slice_succ : slice l (h + 1) pos = slice l h (2 * pos) ++ slice l h (2 * pos + 1) := by
  have hfirst : pos * 2 ^ (h + 1) = 2 * pos * 2 ^ h := by ring
  have hnext : (2 * pos + 1) * 2 ^ h = 2 * pos * 2 ^ h + 2 ^ h := by ring
  have hlen : 2 ^ (h + 1) = 2 ^ h + 2 ^ h := by ring
  rw [slice, slice, slice, hfirst, hnext, hlen, List.take_add, List.drop_drop]

theorem slice_of_not_lt (hlt : ¬ pos < width l.length h) : slice l h pos = [] := by
  rw [lt_width, Nat.not_lt] at hlt
  rw [slice, List.drop_eq_nil_of_le hlt, List.take_nil]

theorem slice_root (hlen : l.length ≤ 2 ^ h) : slice l h 0 = l := by
  rw [slice, Nat.zero_mul, List.drop_zero, List.take_of_length_le hlen]

end slice

end DigiWage.Lib.Merkle
