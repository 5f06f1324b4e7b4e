import Mathlib.Data.List.Basic
import Mathlib.Data.List.Perm.Basic
import Mathlib.Data.List.Nodup
import Mathlib.Data.List.Sort
import Mathlib.Logic.Equiv.Basic
import Mathlib.Order.Basic

/-!
# Elections by sorting

Candidates are sorted by a key, high to low, by a sort that sees nothing but the keys; then the first of the best score
among the first few is elected.

* `KeySort`: such a sort. It moves equal candidates with their places: exchanging two candidates with one key in the input
  exchanges them in the output (`KeySort.swap`), so a candidate can come first, or last, of those with its key
  (`KeySort.exists_first`, `KeySort.exists_last`).
* `KeySort.place_iff`: the order of the input does not matter for the places exactly if no two candidates have one key.
* `elect`: the loop that looks for the best score.
* `KeySort.elect_iff`: who is elected does not depend on the order of the input exactly if the election is `Settled`.
-/

namespace DigiWage.Lib

variable {A K : Type*} {key : A → K} {sort : List A → List A} {l l' P P' : List A} {a b c w : A}

theorem exists_perm_filterMap {B : Type*} {f : B → Option A} : ∀ {P : List A} {l : List B}, P.Perm (l.filterMap f) →
    ∃ l' : List B, l'.Perm l ∧ l'.filterMap f = P
  | [], l, h => ⟨l, .refl l, h.nil_eq.symm⟩
  | a :: P, l, h => by
    obtain ⟨x, hx, hfx⟩ := List.mem_filterMap.mp (h.mem_iff.mp List.mem_cons_self)
    obtain ⟨l₁, l₂, rfl⟩ := List.append_of_mem hx
    have hmid : (l₁ ++ x :: l₂).Perm (x :: (l₁ ++ l₂)) := List.perm_middle
    have hrest : P.Perm ((l₁ ++ l₂).filterMap f) := by
      have hall := h.trans (hmid.filterMap f)
      rw [List.filterMap_cons_some hfx] at hall
      exact List.perm_cons a |>.mp hall
    obtain ⟨l', hl', heq⟩ := exists_perm_filterMap hrest
    exact ⟨x :: l', (hl'.cons x).trans hmid.symm, by rw [List.filterMap_cons_some hfx, heq]⟩

theorem exists_perm_map {B : Type*} {f : B → A} {P : List A} {l : List B} (h : P.Perm (l.map f)) :
    ∃ l' : List B, l'.Perm l ∧ l'.map f = P := by
  rw [← List.filterMap_eq_map] at h
  obtain ⟨l', hl', heq⟩ := exists_perm_filterMap h
  exact ⟨l', hl', by rwa [List.filterMap_eq_map] at heq⟩

theorem sublist_map_filterMap {B C : Type*} {f : B → Option A} {name : A → C} {name' : B → C}
    (h : ∀ x a, f x = some a → name a = name' x) : ∀ l : List B, ((l.filterMap f).map name).Sublist (l.map name')
  | [] => .slnil
  | x :: l => by
    cases hx : f x with
    | none =>
      rw [List.filterMap_cons_none hx]
      exact (sublist_map_filterMap h l).cons _
    | some a =>
      rw [List.filterMap_cons_some hx, List.map_cons, List.map_cons, h x a hx]
      exact (sublist_map_filterMap h l).cons_cons _

/-- A sort that sees nothing but the keys. -/
structure KeySort [LE K] (key : A → K) (sort : List A → List A) : Prop where
  perm : ∀ l, (sort l).Perm l
  sorted : ∀ l, (sort l).Pairwise fun a b => key b ≤ key a
  natural : ∀ f : A → A, (∀ a, key (f a) = key a) → ∀ l, sort (l.map f) = (sort l).map f

theorem keySort_insertionSort [LinearOrder K] (key : A → K) : KeySort key (List.insertionSort fun a b => key b ≤ key a) := by
  have : Std.Total fun a b : A => key b ≤ key a := ⟨fun a b => le_total (key b) (key a)⟩
  have : IsTrans A fun a b => key b ≤ key a := ⟨fun a b c hab hbc => le_trans hbc hab⟩
  refine ⟨List.perm_insertionSort _, List.pairwise_insertionSort _, fun f hf l => ?_⟩
  refine (List.map_insertionSort _ _ f l fun a _ b _ => ?_).symm
  rw [hf, hf]

theorem KeySort.map_sort_eq_iff {B C : Type*} [LinearOrder K] {keyB : B → K} {sortB : List B → List B} {keyC : C → K}
    {f : A → C} {g : B → C} (hA : KeySort key sort) (hB : KeySort keyB sortB) (hf : ∀ a, keyC (f a) = key a)
    (hg : ∀ b, keyC (g b) = keyB b) {lB : List B} (hnodup : (lB.map keyB).Nodup) :
    (sort l).map f = (sortB lB).map g ↔ (l.map f).Perm (lB.map g) := by
  have hpermA : ((sort l).map f).Perm (l.map f) := (hA.perm l).map f
  have hpermB : ((sortB lB).map g).Perm (lB.map g) := (hB.perm lB).map g
  constructor
  · intro h
    exact (hpermA.symm.trans (List.Perm.of_eq h)).trans hpermB
  · intro h
    have hall : ((sort l).map f).Perm ((sortB lB).map g) := (hpermA.trans h).trans hpermB.symm
    have hsortedA : ((sort l).map f).Pairwise fun a b => keyC b ≤ keyC a := by
      refine List.pairwise_map.mpr ((hA.sorted l).imp fun {a b} hab => ?_)
      rwa [hf, hf]
    have hsortedB : ((sortB lB).map g).Pairwise fun a b => keyC b ≤ keyC a := by
      refine List.pairwise_map.mpr ((hB.sorted lB).imp fun {a b} hab => ?_)
      rwa [hg, hg]
    -- what is shown with one key is shown once
    have hinj : ∀ x ∈ (sortB lB).map g, ∀ y ∈ (sortB lB).map g, keyC x = keyC y → x = y := by
      have hkeys : (((sortB lB).map g).map keyC).Nodup := by
        rw [List.map_map]
        have hcomp : (sortB lB).map (keyC ∘ g) = (sortB lB).map keyB := List.map_congr_left fun b _ => hg b
        rw [hcomp]
        exact ((hB.perm lB).map keyB).nodup_iff.mpr hnodup
      exact List.inj_on_of_nodup_map hkeys
    refine hall.eq_of_pairwise (fun a b ha hb hab hba => ?_) hsortedA hsortedB
    exact hinj a (hall.mem_iff.mp ha) b hb (le_antisymm hba hab)

theorem KeySort.reverse [LE K] (hsort : KeySort key sort) :
    KeySort (fun a => OrderDual.toDual (key a)) fun l => (sort l).reverse where
  perm l := (List.reverse_perm _).trans (hsort.perm l)
  sorted l := List.pairwise_reverse.mpr (hsort.sorted l)
  natural f hf l := by
    rw [hsort.natural f (fun a => OrderDual.toDual_inj.mp (hf a)), List.map_reverse]

/-! ## Exchanging candidates -/

section Swap

variable [DecidableEq A]

theorem key_swap (h : key a = key c) (x : A) : key (Equiv.swap a c x) = key x := by
  by_cases hxa : x = a
  · rw [hxa, Equiv.swap_apply_left, h]
  · by_cases hxc : x = c
    · rw [hxc, Equiv.swap_apply_right, h]
    · rw [Equiv.swap_apply_of_ne_of_ne hxa hxc]

theorem perm_map_swap (hnodup : P.Nodup) (ha : a ∈ P) (hc : c ∈ P) : (P.map (Equiv.swap a c)).Perm P := by
  have hmem : ∀ x, Equiv.swap a c x ∈ P ↔ x ∈ P := by
    intro x
    by_cases hxa : x = a
    · rw [hxa, Equiv.swap_apply_left]
      exact iff_of_true hc ha
    · by_cases hxc : x = c
      · rw [hxc, Equiv.swap_apply_right]
        exact iff_of_true ha hc
      · rw [Equiv.swap_apply_of_ne_of_ne hxa hxc]
  refine (List.perm_ext_iff_of_nodup (hnodup.map (Equiv.injective _)) hnodup).mpr fun x => ?_
  rw [List.mem_map]
  constructor
  · rintro ⟨y, hy, rfl⟩
    exact (hmem y).mpr hy
  · intro hx
    exact ⟨Equiv.swap a c x, (hmem x).mpr hx, Equiv.swap_apply_self a c x⟩

theorem map_swap_of_key (hl : ∀ x ∈ l, key x ≠ key a) (h : key a = key c) : l.map (Equiv.swap a c) = l := by
  rw [List.map_congr_left, List.map_id]
  intro x hx
  refine Equiv.swap_apply_of_ne_of_ne (fun heq => hl x hx (by rw [heq])) fun heq => hl x hx ?_
  rw [heq, h]

variable [LinearOrder K]

/-- Candidates with one key can be exchanged. -/
theorem KeySort.swap (hsort : KeySort key sort) (hnodup : P.Nodup) (ha : a ∈ P) (hc : c ∈ P) (h : key a = key c) :
    ∃ P', P'.Perm P ∧ sort P' = (sort P).map (Equiv.swap a c) :=
  ⟨P.map (Equiv.swap a c), perm_map_swap hnodup ha hc, hsort.natural _ (key_swap h) P⟩

theorem KeySort.exists_first (hsort : KeySort key sort) (hnodup : P.Nodup) (ha : a ∈ P) :
    ∃ P', P'.Perm P ∧ ∃ hi rest, sort P' = hi ++ a :: rest ∧ ∀ x ∈ hi, key a < key x := by
  have hmem : a ∈ sort P := (hsort.perm P).mem_iff.mpr ha
  -- The first one whose key is not higher has the same key.
  obtain ⟨c, hc⟩ : ∃ c, (sort P).find? (fun x => decide (key x ≤ key a)) = some c :=
    Option.isSome_iff_exists.mp (List.find?_isSome.mpr ⟨a, hmem, decide_eq_true le_rfl⟩)
  obtain ⟨hle, hi, rest, hl, hhi⟩ := List.find?_eq_some_iff_append.mp hc
  have hhi : ∀ x ∈ hi, key a < key x := by
    intro x hx
    simpa using hhi x hx
  have hkey : key a = key c := by
    refine le_antisymm ?_ (of_decide_eq_true hle)
    have hsorted := hsort.sorted P
    rw [hl, List.pairwise_append, List.pairwise_cons] at hsorted
    rw [hl, List.mem_append, List.mem_cons] at hmem
    rcases hmem with hmem | rfl | hmem
    · exact absurd (hhi a hmem) (lt_irrefl _)
    · exact le_rfl
    · exact hsorted.2.1.1 a hmem
  obtain ⟨P', hP', heq⟩ := hsort.swap hnodup ha ((hsort.perm P).mem_iff.mp (List.mem_of_find?_eq_some hc)) hkey
  refine ⟨P', hP', hi, rest.map (Equiv.swap a c), ?_, hhi⟩
  rw [heq, hl, List.map_append, List.map_cons, Equiv.swap_apply_right,
    map_swap_of_key (fun x hx => (hhi x hx).ne') hkey]

/-- A candidate comes last of those with its key. -/
theorem KeySort.exists_last (hsort : KeySort key sort) (hnodup : P.Nodup) (ha : a ∈ P) :
    ∃ P', P'.Perm P ∧ ∃ pre lo, sort P' = pre ++ a :: lo ∧ ∀ x ∈ lo, key x < key a := by
  obtain ⟨P', hP', lo, pre, heq, hlo⟩ := hsort.reverse.exists_first hnodup ha
  refine ⟨P', hP', pre.reverse, lo.reverse, ?_, fun x hx => hlo x (List.mem_reverse.mp hx)⟩
  rw [← List.reverse_reverse (sort P'), heq, List.reverse_append, List.reverse_cons, List.append_assoc,
    List.singleton_append]

end Swap

/-! ## Places -/

section Places

variable [LinearOrder K] {B : Type*} [DecidableEq B] {name : A → B}

/-- The place of a name in a list. -/
def place (name : A → B) (b : B) (l : List A) : Option Nat := l.findIdx? fun x => decide (name x = b)

theorem KeySort.sort_eq (hsort : KeySort key sort) (hkeys : (P.map key).Nodup) (hP' : P'.Perm P) :
    sort P' = sort P := by
  refine List.Perm.eq_of_pairwise (fun a b ha hb hab hba => ?_) (hsort.sorted P') (hsort.sorted P)
    ((hsort.perm P').trans (hP'.trans (hsort.perm P).symm))
  exact List.inj_on_of_nodup_map hkeys (hP'.mem_iff.mp ((hsort.perm P').mem_iff.mp ha)) ((hsort.perm P).mem_iff.mp hb)
    (le_antisymm hba hab)

theorem KeySort.place_iff (hsort : KeySort key sort) (hnames : (P.map name).Nodup) :
    (∀ P', P'.Perm P → ∀ a ∈ P, place name (name a) (sort P') = place name (name a) (sort P)) ↔ (P.map key).Nodup := by
  classical
  have hnodup : P.Nodup := hnames.of_map _
  have hinj := List.inj_on_of_nodup_map hnames
  constructor
  · intro hall
    refine (List.nodup_map_iff_inj_on hnodup).mpr fun a ha c hc h => ?_
    obtain ⟨P', hP', heq⟩ := hsort.swap hnodup ha hc h
    have hplace := hall P' hP' a ha
    -- Where `a` was, there is `c` now.
    obtain ⟨i, hi⟩ : ∃ i, place name (name a) (sort P) = some i := by
      unfold place
      rw [← Option.isSome_iff_exists, List.findIdx?_isSome, List.any_eq_true]
      exact ⟨a, (hsort.perm P).mem_iff.mpr ha, decide_eq_true rfl⟩
    rw [hi] at hplace
    obtain ⟨hlt, hname, -⟩ := List.findIdx?_eq_some_iff_getElem.mp hi
    obtain ⟨hlt', hname', -⟩ := List.findIdx?_eq_some_iff_getElem.mp hplace
    have hat : (sort P)[i] = a :=
      hinj ((hsort.perm P).mem_iff.mp (List.getElem_mem hlt)) ha (of_decide_eq_true hname)
    have hname' := of_decide_eq_true hname'
    simp only [heq, List.getElem_map, hat, Equiv.swap_apply_left] at hname'
    exact (hinj hc ha hname').symm
  · intro hkeys P' hP' a _
    rw [hsort.sort_eq hkeys hP']

end Places

/-! ## The best score -/

section Elect

variable (score : A → Nat)

/-- The loop that looks for the best score, from a best one so far. -/
def electFrom : List A → Nat → Option A → Option A
  | [], _, best => best
  | a :: l, nHigh, best => if nHigh < score a then electFrom l (score a) (some a) else electFrom l nHigh best

/-- The first of the best score, if it is not 0. -/
def elect (l : List A) : Option A := electFrom score l 0 none

variable {score}

theorem electFrom_of_le : ∀ {l : List A} {nHigh : Nat} {best : Option A}, (∀ x ∈ l, score x ≤ nHigh) →
    electFrom score l nHigh best = best
  | [], _, _, _ => rfl
  | a :: l, nHigh, best, h => by
    have ha := h a List.mem_cons_self
    rw [electFrom, if_neg (by omega)]
    exact electFrom_of_le fun x hx => h x (List.mem_cons_of_mem _ hx)

theorem electFrom_append {post : List A} (hpost : ∀ x ∈ post, score x ≤ score w) : ∀ {pre : List A} {nHigh : Nat}
    {best : Option A}, (∀ x ∈ pre, score x < score w) → nHigh < score w →
      electFrom score (pre ++ w :: post) nHigh best = some w
  | [], nHigh, best, _, hw => by
    rw [List.nil_append, electFrom, if_pos hw]
    exact electFrom_of_le hpost
  | a :: pre, nHigh, best, hpre, hw => by
    have hrest : ∀ x ∈ pre, score x < score w := fun x hx => hpre x (List.mem_cons_of_mem _ hx)
    rw [List.cons_append, electFrom]
    split
    · exact electFrom_append hpost hrest (hpre a List.mem_cons_self)
    · exact electFrom_append hpost hrest hw

theorem electFrom_cases (score : A → Nat) : ∀ (l : List A) (nHigh : Nat) (best : Option A),
    ((∀ x ∈ l, score x ≤ nHigh) ∧ electFrom score l nHigh best = best) ∨
      ∃ pre w post, l = pre ++ w :: post ∧ nHigh < score w ∧ (∀ x ∈ pre, score x < score w) ∧
        (∀ x ∈ post, score x ≤ score w) ∧ electFrom score l nHigh best = some w
  | [], _, _ => .inl ⟨fun x hx => (by cases hx), rfl⟩
  | a :: l, nHigh, best => by
    rw [electFrom]
    split
    · rename_i ha
      rcases electFrom_cases score l (score a) (some a) with ⟨hall, heq⟩ | ⟨pre, w, post, rfl, hw, hpre, hpost, heq⟩
      · exact .inr ⟨[], a, l, rfl, ha, fun x hx => (by cases hx), hall, heq⟩
      · refine .inr ⟨a :: pre, w, post, rfl, by omega, fun x hx => ?_, hpost, heq⟩
        rcases List.mem_cons.mp hx with rfl | hx
        · exact hw
        · exact hpre x hx
    · rename_i ha
      rcases electFrom_cases score l nHigh best with ⟨hall, heq⟩ | ⟨pre, w, post, rfl, hw, hpre, hpost, heq⟩
      · refine .inl ⟨fun x hx => ?_, heq⟩
        rcases List.mem_cons.mp hx with rfl | hx
        · omega
        · exact hall x hx
      · refine .inr ⟨a :: pre, w, post, rfl, hw, fun x hx => ?_, hpost, heq⟩
        rcases List.mem_cons.mp hx with rfl | hx
        · omega
        · exact hpre x hx

theorem elect_eq_none_iff : elect score l = none ↔ ∀ x ∈ l, score x = 0 := by
  constructor
  · intro hnone x hx
    rcases electFrom_cases score l 0 none with ⟨hall, -⟩ | ⟨pre, w, post, -, -, -, -, heq⟩
    · exact Nat.le_zero.mp (hall x hx)
    · rw [elect, heq] at hnone
      cases hnone
  · exact fun hall => electFrom_of_le fun x hx => Nat.le_of_eq (hall x hx)

theorem elect_eq_some_iff : elect score l = some w ↔ ∃ pre post, l = pre ++ w :: post ∧ 0 < score w ∧
    (∀ x ∈ pre, score x < score w) ∧ ∀ x ∈ post, score x ≤ score w := by
  constructor
  · intro hsome
    rcases electFrom_cases score l 0 none with ⟨-, heq⟩ | ⟨pre, w', post, hl, hw, hpre, hpost, heq⟩
    · rw [elect, heq] at hsome
      cases hsome
    · rw [elect, heq] at hsome
      cases hsome
      exact ⟨pre, post, hl, hw, hpre, hpost⟩
  · rintro ⟨pre, post, rfl, hw, hpre, hpost⟩
    exact electFrom_append hpost hpre hw

/-! ## Settled elections -/

variable [LinearOrder K]

/-- The number of candidates with a higher key. -/
def above (key : A → K) (P : List A) (a : A) : Nat := P.countP fun x => decide (key a < key x)

/-- The number of candidates whose key is not lower. -/
def upTo (key : A → K) (P : List A) (a : A) : Nat := P.countP fun x => decide (key a ≤ key x)

/-- None of those that may be among the first `k` has a score, or one that always is has the best score, and those with
the same score come later. -/
def Settled (key : A → K) (score : A → Nat) (k : Nat) (P : List A) : Prop :=
  (∀ x ∈ P, above key P x < k → score x = 0) ∨
    ∃ w ∈ P, upTo key P w ≤ k ∧ 0 < score w ∧ ∀ b ∈ P, above key P b < k → b ≠ w →
      score b < score w ∨ score b = score w ∧ key b < key w

instance [DecidableEq A] {k : Nat} : Decidable (Settled key score k P) := inferInstanceAs (Decidable (_ ∨ _))

section Sorted

variable (hl : l.Pairwise fun a b => key b ≤ key a)
include hl

theorem above_lt_of_mem_take {k : Nat} (ha : a ∈ l.take k) : above key l a < k := by
  obtain ⟨pre, post, hpre⟩ := List.append_of_mem ha
  have hsplit : l = pre ++ a :: (post ++ l.drop k) := by
    rw [← List.cons_append, ← List.append_assoc, ← hpre, List.take_append_drop]
  have hlen : pre.length < k := by
    have h := congrArg List.length hpre
    rw [List.length_take, List.length_append, List.length_cons] at h
    omega
  rw [hsplit, List.pairwise_append, List.pairwise_cons] at hl
  have hnone : (a :: (post ++ l.drop k)).countP (fun x => decide (key a < key x)) = 0 := by
    rw [List.countP_eq_zero]
    intro x hx
    rcases List.mem_cons.mp hx with rfl | hx
    · simp
    · simpa using hl.2.1.1 x hx
  unfold above
  rw [hsplit, List.countP_append, hnone]
  have hle := List.countP_le_length (p := fun x => decide (key a < key x)) (l := pre)
  omega

theorem mem_take_of_upTo_le {k : Nat} (ha : a ∈ l) (hk : upTo key l a ≤ k) : a ∈ l.take k := by
  by_contra hout
  have hdrop : a ∈ l.drop k := by
    have h := ha
    rw [← List.take_append_drop k l, List.mem_append] at h
    exact h.resolve_left hout
  -- All of the first `k` have a key that is not lower.
  have hlen : k < l.length := by
    by_contra hlen
    rw [List.drop_of_length_le (by omega)] at hdrop
    cases hdrop
  have hall : (l.take k).countP (fun x => decide (key a ≤ key x)) = (l.take k).length := by
    rw [List.countP_eq_length]
    intro x hx
    rw [← List.take_append_drop k l, List.pairwise_append] at hl
    exact decide_eq_true (hl.2.2 x hx a hdrop)
  have hone : 0 < (l.drop k).countP fun x => decide (key a ≤ key x) :=
    List.countP_pos_iff.mpr ⟨a, hdrop, decide_eq_true le_rfl⟩
  unfold upTo at hk
  rw [← List.take_append_drop k l, List.countP_append, hall, List.length_take] at hk
  omega

end Sorted

theorem KeySort.above_eq (hsort : KeySort key sort) (hP' : P'.Perm P) (x : A) : above key (sort P') x = above key P x :=
  ((hsort.perm P').trans hP').countP_eq _

theorem KeySort.upTo_eq (hsort : KeySort key sort) (hP' : P'.Perm P) (x : A) : upTo key (sort P') x = upTo key P x :=
  ((hsort.perm P').trans hP').countP_eq _

/-- A candidate with fewer than `k` above it is among the first `k` for some order of the input, before all others whose key
is not higher. -/
theorem KeySort.exists_take (hsort : KeySort key sort) (hnodup : P.Nodup) (ha : a ∈ P) {k : Nat}
    (hk : above key P a < k) : ∃ P', P'.Perm P ∧ ∃ hi rest, (sort P').take k = hi ++ a :: rest ∧ ∀ x ∈ hi, key a < key x := by
  classical
  obtain ⟨P', hP', hi, rest, heq, hhi⟩ := hsort.exists_first hnodup ha
  have hlen : hi.length ≤ above key P a := by
    rw [← hsort.above_eq hP', heq, above, List.countP_append]
    have hall : hi.countP (fun x => decide (key a < key x)) = hi.length :=
      List.countP_eq_length.mpr fun x hx => decide_eq_true (hhi x hx)
    omega
  obtain ⟨m, rfl⟩ : ∃ m, k = hi.length + (m + 1) := ⟨k - hi.length - 1, by omega⟩
  exact ⟨P', hP', hi, rest.take m, by rw [heq, List.take_length_add_append, List.take_succ_cons], hhi⟩

theorem KeySort.exists_notMem_take (hsort : KeySort key sort) (hnodup : P.Nodup) (ha : a ∈ P) {k : Nat}
    (hk : k < upTo key P a) : ∃ P', P'.Perm P ∧ a ∉ (sort P').take k := by
  classical
  obtain ⟨P', hP', pre, lo, heq, hlo⟩ := hsort.exists_last hnodup ha
  have hlen : upTo key P a ≤ pre.length + 1 := by
    have hnone : lo.countP (fun x => decide (key a ≤ key x)) = 0 := by
      rw [List.countP_eq_zero]
      intro x hx
      simpa using hlo x hx
    have hpre := List.countP_le_length (p := fun x => decide (key a ≤ key x)) (l := pre)
    rw [← hsort.upTo_eq hP', heq, upTo, List.countP_append, List.countP_cons, hnone]
    split <;> omega
  refine ⟨P', hP', fun hmem => ?_⟩
  have hnodup' : (sort P').Nodup := (hsort.perm P').nodup_iff.mpr (hP'.nodup_iff.mpr hnodup)
  rw [heq, List.take_append_of_le_length (by omega)] at hmem
  rw [heq] at hnodup'
  exact (List.nodup_middle.mp hnodup').notMem (List.mem_append_left _ (List.mem_of_mem_take hmem))

theorem KeySort.elect_of_settled (hsort : KeySort key sort) {k : Nat} (hset : Settled key score k P) :
    ∃ r, ∀ P', P'.Perm P → elect score ((sort P').take k) = r := by
  rcases hset with hzero | ⟨w, hw, hwk, hpos, hbest⟩
  · refine ⟨none, fun P' hP' => elect_eq_none_iff.mpr fun x hx => ?_⟩
    have hxP := (hP'.mem_iff).mp ((hsort.perm P').mem_iff.mp (List.mem_of_mem_take hx))
    refine hzero x hxP ?_
    rw [← hsort.above_eq hP']
    exact above_lt_of_mem_take (hsort.sorted P') hx
  · refine ⟨some w, fun P' hP' => ?_⟩
    have hmem : w ∈ (sort P').take k := by
      refine mem_take_of_upTo_le (hsort.sorted P') ((hsort.perm P').mem_iff.mpr (hP'.mem_iff.mpr hw)) ?_
      rw [hsort.upTo_eq hP']
      exact hwk
    obtain ⟨pre, post, heq, hnew⟩ := List.eq_append_cons_of_mem hmem
    have hrival : ∀ x ∈ (sort P').take k, x ≠ w → score x < score w ∨ score x = score w ∧ key x < key w := by
      intro x hx hne
      refine hbest x (hP'.mem_iff.mp ((hsort.perm P').mem_iff.mp (List.mem_of_mem_take hx))) ?_ hne
      rw [← hsort.above_eq hP']
      exact above_lt_of_mem_take (hsort.sorted P') hx
    have hsorted := (hsort.sorted P').sublist (List.take_sublist k _)
    rw [heq] at hrival hsorted ⊢
    rw [List.pairwise_append, List.pairwise_cons] at hsorted
    refine elect_eq_some_iff.mpr ⟨pre, post, rfl, hpos, fun x hx => ?_, fun x hx => ?_⟩
    · -- What comes before has no lower key.
      have hle := hsorted.2.2 x hx w List.mem_cons_self
      have hxw : x ≠ w := fun h => hnew (h ▸ hx)
      rcases hrival x (List.mem_append_left _ hx) hxw with hlt | ⟨-, hlt⟩
      · exact hlt
      · exact absurd hle (not_le.mpr hlt)
    · by_cases hxw : x = w
      · exact Nat.le_of_eq (congrArg score hxw)
      · rcases hrival x (List.mem_append_right _ (List.mem_cons_of_mem _ hx)) hxw with hlt | ⟨heq, -⟩
        · exact Nat.le_of_lt hlt
        · exact Nat.le_of_eq heq

theorem KeySort.settled_of_elect (hsort : KeySort key sort) (hnodup : P.Nodup) {k : Nat} {r : Option A}
    (hall : ∀ P', P'.Perm P → elect score ((sort P').take k) = r) : Settled key score k P := by
  cases r with
  | none =>
    refine .inl fun x hx hk => ?_
    obtain ⟨P', hP', hi, rest, heq, -⟩ := hsort.exists_take hnodup hx hk
    refine elect_eq_none_iff.mp (hall P' hP') x ?_
    rw [heq]
    exact List.mem_append_right _ List.mem_cons_self
  | some w =>
    have helect : ∀ P', P'.Perm P → w ∈ (sort P').take k := by
      intro P' hP'
      obtain ⟨pre, post, heq, -⟩ := elect_eq_some_iff.mp (hall P' hP')
      rw [heq]
      exact List.mem_append_right _ List.mem_cons_self
    obtain ⟨-, -, -, hpos, -⟩ := elect_eq_some_iff.mp (hall P (.refl P))
    have hw : w ∈ P := (hsort.perm P).mem_iff.mp (List.mem_of_mem_take (helect P (.refl P)))
    refine .inr ⟨w, hw, ?_, hpos, fun b hb hk hne => ?_⟩
    · by_contra hwk
      obtain ⟨P', hP', hout⟩ := hsort.exists_notMem_take hnodup hw (Nat.lt_of_not_le hwk)
      exact hout (helect P' hP')
    · obtain ⟨P', hP', hi, rest, heq, hhi⟩ := hsort.exists_take hnodup hb hk
      obtain ⟨pre, post, heq', -, hpre, hpost⟩ := elect_eq_some_iff.mp (hall P' hP')
      have hbmem : b ∈ pre ++ w :: post := by
        rw [← heq', heq]
        exact List.mem_append_right _ List.mem_cons_self
      rcases List.mem_append.mp hbmem with hbpre | hbpost
      · exact .inl (hpre b hbpre)
      · rcases List.mem_cons.mp hbpost with rfl | hbpost
        · exact absurd rfl hne
        · -- The elected one comes before, so its key is higher.
          have hwhi : w ∈ hi := by
            obtain ⟨p₁, p₂, rfl⟩ := List.append_of_mem hbpost
            have hnodup' : ((sort P').take k).Nodup :=
              ((hsort.perm P').nodup_iff.mpr (hP'.nodup_iff.mpr hnodup)).sublist (List.take_sublist k _)
            have hsplit : pre ++ w :: (p₁ ++ b :: p₂) = (pre ++ w :: p₁) ++ b :: p₂ := by simp
            rw [heq] at hnodup'
            rw [heq, hsplit] at heq'
            obtain ⟨hbhi, hbrest⟩ := not_or.mp (List.mem_append.not.mp (List.nodup_middle.mp hnodup').notMem)
            rw [List.append_cons_inj_of_notMem hbhi hbrest] at heq'
            rw [heq'.1]
            exact List.mem_append_right _ List.mem_cons_self
          have hkey := hhi w hwhi
          rcases Nat.lt_or_eq_of_le (hpost b hbpost) with hlt | heq
          · exact .inl hlt
          · exact .inr ⟨heq, hkey⟩

theorem KeySort.elect_iff (hsort : KeySort key sort) (hnodup : P.Nodup) {k : Nat} :
    (∀ P', P'.Perm P → elect score ((sort P').take k) = elect score ((sort P).take k)) ↔ Settled key score k P := by
  constructor
  · exact fun hall => hsort.settled_of_elect hnodup hall
  · intro hset P' hP'
    obtain ⟨r, hr⟩ := hsort.elect_of_settled hset
    rw [hr P' hP', hr P (.refl P)]

end Elect

end DigiWage.Lib
