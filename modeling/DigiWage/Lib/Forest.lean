import Mathlib.Data.List.Basic
import Mathlib.Tactic.Common

/-!
# Forests of parent pointers

A forest is a parent function `par : P → Option P`; `Anc par a p` says that `a` is `p` or an ancestor of `p`. `Rooted`
says that on a set of nodes closed under `par` the heights `ht` count the steps to a root.

* The ancestors of a node are comparable (`Anc.total`), and in a rooted forest there is exactly one at each height
  (`Rooted.anc_unique`, `Rooted.exists_at`).
* `path` is the list of ancestors, the node first (`Rooted.mem_path`, `Rooted.getElem?_reverse_path`); a walk along it
  that stops at a test goes as far as `Rooted.mem_takeWhile_path` says, and the part above an ancestor is as long as the
  heights differ (`Rooted.countP_path`).
* Parents outside the set do not matter (`Rooted.anc_congr`).
* In two forests whose nodes have labels, where nodes with one label have parents with one label, such nodes have ancestors with the
  same labels (`exists_anc_of_label`).
-/

namespace DigiWage.Lib

variable {P : Type*} {par par' : P → Option P} {ht : P → Nat} {S : P → Prop} {a b c p q : P}

/-- `a` is `p` or an ancestor of `p`. -/
inductive Anc (par : P → Option P) : P → P → Prop
  | refl (p : P) : Anc par p p
  | up {a p q : P} : par p = some q → Anc par a q → Anc par a p

theorem Anc.parent (h : par p = some q) : Anc par q p := .up h (.refl q)

theorem Anc.trans (h₁ : Anc par a b) (h₂ : Anc par b c) : Anc par a c := by
  induction h₂ with
  | refl => exact h₁
  | up hp _ ih => exact .up hp ih

theorem anc_iff : Anc par a p ↔ a = p ∨ ∃ q, par p = some q ∧ Anc par a q := by
  constructor
  · intro h
    cases h with
    | refl => exact Or.inl rfl
    | up hp h => exact Or.inr ⟨_, hp, h⟩
  · rintro (rfl | ⟨q, hp, h⟩)
    · exact .refl _
    · exact .up hp h

theorem Anc.of_ne (h : Anc par a p) (hne : a ≠ p) : ∃ q, par p = some q ∧ Anc par a q :=
  (anc_iff.mp h).resolve_left hne

/-- Two ancestors of a node are comparable. -/
theorem Anc.total (h₁ : Anc par a p) (h₂ : Anc par b p) : Anc par a b ∨ Anc par b a := by
  induction h₁ with
  | refl => exact Or.inr h₂
  | up hp h ih =>
    rcases anc_iff.mp h₂ with rfl | ⟨q', hp', h'⟩
    · exact Or.inl (.up hp h)
    · rw [hp] at hp'
      cases hp'
      exact ih h'

theorem Anc.invariant {C : P → Prop} (h : Anc par a p) (hp : C p) (hstep : ∀ p q, C p → par p = some q → C q) :
    C a := by
  induction h with
  | refl => exact hp
  | up hpq _ ih => exact ih (hstep _ _ hp hpq)

/-! ## Rooted forests -/

/-- On the set `S`, closed under `par`, heights count the steps to a root. -/
structure Rooted (par : P → Option P) (ht : P → Nat) (S : P → Prop) : Prop where
  mem : ∀ {p q}, S p → par p = some q → S q
  succ : ∀ {p q}, S p → par p = some q → ht p = ht q + 1
  root : ∀ {p}, S p → par p = none → ht p = 0

namespace Rooted

theorem anc_mem (hR : Rooted par ht S) (hp : S p) (h : Anc par a p) : S a :=
  h.invariant hp fun _ _ hp hpq => hR.mem hp hpq

theorem anc_le (hR : Rooted par ht S) (hp : S p) (h : Anc par a p) : ht a ≤ ht p := by
  induction h with
  | refl => exact Nat.le_refl _
  | up hpq _ ih =>
    have := hR.succ hp hpq
    have := ih (hR.mem hp hpq)
    omega

theorem anc_eq (hR : Rooted par ht S) (hp : S p) (h : Anc par a p) (hh : ht p ≤ ht a) : a = p := by
  rcases anc_iff.mp h with rfl | ⟨q, hpq, h⟩
  · rfl
  · have := hR.succ hp hpq
    have := hR.anc_le (hR.mem hp hpq) h
    omega

theorem anc_unique (hR : Rooted par ht S) (hp : S p) (ha : Anc par a p) (hb : Anc par b p) (hh : ht a = ht b) :
    a = b := by
  rcases ha.total hb with h | h
  · exact hR.anc_eq (hR.anc_mem hp hb) h (by omega)
  · exact (hR.anc_eq (hR.anc_mem hp ha) h (by omega)).symm

theorem anc_antisymm (hR : Rooted par ht S) (hp : S p) (h₁ : Anc par a p) (h₂ : Anc par p a) : a = p :=
  hR.anc_eq hp h₁ (hR.anc_le (hR.anc_mem hp h₁) h₂)

theorem induct_on (hR : Rooted par ht S) {C : P → Prop} (h : ∀ p, S p → (∀ q, par p = some q → C q) → C p) :
    ∀ p, S p → C p := by
  suffices ∀ n p, ht p = n → S p → C p from fun p => this (ht p) p rfl
  intro n
  induction n with
  | zero =>
    intro p hn hp
    refine h p hp fun q hpq => ?_
    have := hR.succ hp hpq
    omega
  | succ n ih =>
    intro p hn hp
    refine h p hp fun q hpq => ?_
    have := hR.succ hp hpq
    exact ih q (by omega) (hR.mem hp hpq)

theorem exists_at (hR : Rooted par ht S) (hp : S p) {k : Nat} (hk : k ≤ ht p) : ∃ a, Anc par a p ∧ ht a = k := by
  revert hk
  refine hR.induct_on (C := fun p => k ≤ ht p → ∃ a, Anc par a p ∧ ht a = k) (fun p hp ih hk => ?_) p hp
  by_cases hkp : k = ht p
  · exact ⟨p, .refl p, hkp.symm⟩
  · cases hpar : par p with
    | none =>
      have := hR.root hp hpar
      omega
    | some q =>
      have := hR.succ hp hpar
      obtain ⟨a, ha, hh⟩ := ih q hpar (by omega)
      exact ⟨a, .up hpar ha, hh⟩

theorem anc_congr (hR : Rooted par ht S) (heq : ∀ p, S p → par' p = par p) (hp : S p) :
    Anc par' a p ↔ Anc par a p := by
  refine hR.induct_on (C := fun p => Anc par' a p ↔ Anc par a p) (fun p hp ih => ?_) p hp
  rw [@anc_iff P par' a p, @anc_iff P par a p, heq p hp]
  constructor
  · rintro (h | ⟨q, hpq, h⟩)
    · exact Or.inl h
    · exact Or.inr ⟨q, hpq, (ih q hpq).mp h⟩
  · rintro (h | ⟨q, hpq, h⟩)
    · exact Or.inl h
    · exact Or.inr ⟨q, hpq, (ih q hpq).mpr h⟩

end Rooted

/-! ## Two forests with common labels -/

section labels

variable {Q L : Type*} {par₂ : Q → Option Q} {ht₂ : Q → Nat} {S₂ : Q → Prop} {label : P → L} {label₂ : Q → L} {r : Q}

theorem exists_anc_of_label (hR : Rooted par ht S) (hR₂ : Rooted par₂ ht₂ S₂)
    (hpar : ∀ p q, S p → S₂ q → label p = label₂ q → (par p).map label = (par₂ q).map label₂) (hp : S p) (hr : S₂ r)
    (heq : label p = label₂ r) (h : Anc par a p) : ∃ b, Anc par₂ b r ∧ label a = label₂ b := by
  induction h generalizing r with
  | refl => exact ⟨r, .refl r, heq⟩
  | up hpq _ ih =>
    have hlabel := hpar _ _ hp hr heq
    rw [hpq, Option.map_some] at hlabel
    obtain ⟨s, hs, hlabel⟩ := Option.map_eq_some_iff.mp hlabel.symm
    obtain ⟨b, hb, hlabel⟩ := ih (hR.mem hp hpq) (hR₂.mem hr hs) hlabel.symm
    exact ⟨b, .up hs hb, hlabel⟩

end labels

/-! ## The path to the root -/

/-- The node and its ancestors, for `n` steps at most. -/
def path (par : P → Option P) : Nat → P → List P
  | 0, p => [p]
  | n + 1, p =>
    match par p with
    | none => [p]
    | some q => p :: path par n q

namespace Rooted

theorem path_none (hR : Rooted par ht S) (hp : S p) (h : par p = none) : path par (ht p) p = [p] := by
  rw [hR.root hp h]
  rfl

theorem path_some (hR : Rooted par ht S) (hp : S p) (h : par p = some q) :
    path par (ht p) p = p :: path par (ht q) q := by
  rw [hR.succ hp h, path, h]

theorem path_congr (hR : Rooted par ht S) (heq : ∀ p, S p → par' p = par p) : ∀ (n : Nat) {p : P}, S p →
    path par' n p = path par n p
  | 0, _, _ => rfl
  | n + 1, p, hp => by
    unfold path
    rw [heq p hp]
    cases hpar : par p with
    | none => rfl
    | some q => exact congrArg _ (path_congr hR heq n (hR.mem hp hpar))

theorem mem_path (hR : Rooted par ht S) (hp : S p) : a ∈ path par (ht p) p ↔ Anc par a p := by
  refine hR.induct_on (C := fun p => a ∈ path par (ht p) p ↔ Anc par a p) (fun p hp ih => ?_) p hp
  rw [anc_iff]
  cases hpar : par p with
  | none => simp [hR.path_none hp hpar]
  | some q =>
    rw [hR.path_some hp hpar, List.mem_cons, ih q hpar]
    simp

theorem length_path (hR : Rooted par ht S) (hp : S p) : (path par (ht p) p).length = ht p + 1 := by
  refine hR.induct_on (C := fun p => (path par (ht p) p).length = ht p + 1) (fun p hp ih => ?_) p hp
  cases hpar : par p with
  | none => rw [hR.path_none hp hpar, hR.root hp hpar]; rfl
  | some q => rw [hR.path_some hp hpar, List.length_cons, ih q hpar, hR.succ hp hpar]

theorem pairwise_path (hR : Rooted par ht S) (hp : S p) : (path par (ht p) p).Pairwise fun a b => ht b < ht a := by
  refine hR.induct_on (C := fun p => (path par (ht p) p).Pairwise fun a b => ht b < ht a) (fun p hp ih => ?_) p hp
  cases hpar : par p with
  | none =>
    rw [hR.path_none hp hpar]
    exact List.pairwise_singleton _ p
  | some q =>
    rw [hR.path_some hp hpar]
    refine List.pairwise_cons.mpr ⟨fun b hb => ?_, ih q hpar⟩
    have hle := hR.anc_le (hR.mem hp hpar) ((hR.mem_path (hR.mem hp hpar)).mp hb)
    have hsucc := hR.succ hp hpar
    omega

theorem getElem?_reverse_path (hR : Rooted par ht S) (hp : S p) (i : Nat) :
    (path par (ht p) p).reverse[i]? = some a ↔ Anc par a p ∧ ht a = i := by
  refine hR.induct_on (C := fun p => (path par (ht p) p).reverse[i]? = some a ↔ Anc par a p ∧ ht a = i)
    (fun p hp ih => ?_) p hp
  rw [anc_iff]
  cases hpar : par p with
  | none =>
    have h0 := hR.root hp hpar
    rw [hR.path_none hp hpar]
    cases i with
    | zero =>
      simp only [List.reverse_cons, List.reverse_nil, List.nil_append, List.getElem?_cons_zero, Option.some.injEq]
      constructor
      · rintro rfl
        exact ⟨Or.inl rfl, h0⟩
      · rintro ⟨h | ⟨q, hq, -⟩, -⟩
        · exact h.symm
        · cases hq
    | succ i =>
      simp only [List.reverse_cons, List.reverse_nil, List.nil_append, List.getElem?_cons_succ, List.getElem?_nil,
        reduceCtorEq, false_iff, not_and]
      rintro (rfl | ⟨q, hq, -⟩)
      · omega
      · cases hq
  | some q =>
    have hsucc := hR.succ hp hpar
    have hlen : (path par (ht q) q).reverse.length = ht p := by
      rw [List.length_reverse, hR.length_path (hR.mem hp hpar), hsucc]
    rw [hR.path_some hp hpar, List.reverse_cons]
    rcases Nat.lt_trichotomy i (ht p) with hi | hi | hi
    · rw [List.getElem?_append_left (by omega), ih q hpar]
      constructor
      · rintro ⟨h, hh⟩
        exact ⟨Or.inr ⟨q, rfl, h⟩, hh⟩
      · rintro ⟨h | ⟨q', hq', h⟩, hh⟩
        · subst h; omega
        · cases hq'
          exact ⟨h, hh⟩
    · rw [List.getElem?_append_right (by omega), hlen, hi, Nat.sub_self]
      simp only [List.getElem?_cons_zero, Option.some.injEq]
      constructor
      · rintro rfl
        exact ⟨Or.inl rfl, rfl⟩
      · rintro ⟨h | ⟨q', hq', h⟩, hh⟩
        · exact h.symm
        · cases hq'
          have := hR.anc_le (hR.mem hp hpar) h
          omega
    · rw [List.getElem?_append_right (by omega), List.getElem?_eq_none (by simp only [List.length_singleton]; omega)]
      constructor
      · intro h; cases h
      · rintro ⟨h | ⟨q', hq', h⟩, hh⟩
        · subst h; omega
        · cases hq'
          have := hR.anc_le (hR.mem hp hpar) h
          omega

theorem mem_takeWhile_path (hR : Rooted par ht S) (hp : S p) {f : P → Bool} :
    a ∈ (path par (ht p) p).takeWhile f ↔ Anc par a p ∧ ∀ b, Anc par a b → Anc par b p → f b = true := by
  refine hR.induct_on (C := fun p => a ∈ (path par (ht p) p).takeWhile f ↔
    Anc par a p ∧ ∀ b, Anc par a b → Anc par b p → f b = true) (fun p hp ih => ?_) p hp
  have hcons : ∃ l, path par (ht p) p = p :: l ∧
      (a ∈ l.takeWhile f ↔ ∃ q, par p = some q ∧ Anc par a q ∧ ∀ b, Anc par a b → Anc par b q → f b = true) := by
    cases hpar : par p with
    | none => exact ⟨[], hR.path_none hp hpar, by simp⟩
    | some q => exact ⟨_, hR.path_some hp hpar, by rw [ih q hpar]; simp⟩
  obtain ⟨l, hl, hmem⟩ := hcons
  rw [hl, List.takeWhile_cons]
  split
  · rename_i hf
    rw [List.mem_cons, hmem]
    constructor
    · rintro (rfl | ⟨q, hpq, haq, hall⟩)
      · refine ⟨.refl a, fun b hab hba => ?_⟩
        rw [hR.anc_antisymm hp hba hab]
        exact hf
      · refine ⟨.up hpq haq, fun b hab hbp => ?_⟩
        by_cases hb : b = p
        · rw [hb]
          exact hf
        · obtain ⟨q', hpq', hbq⟩ := hbp.of_ne hb
          rw [hpq] at hpq'
          cases hpq'
          exact hall b hab hbq
    · rintro ⟨hap, hall⟩
      rcases anc_iff.mp hap with rfl | ⟨q, hpq, haq⟩
      · exact Or.inl rfl
      · exact Or.inr ⟨q, hpq, haq, fun b hab hbq => hall b hab (.up hpq hbq)⟩
  · rename_i hf
    constructor
    · intro h
      cases h
    · rintro ⟨hap, hall⟩
      exact absurd (hall p hap (.refl p)) hf

theorem countP_path (hR : Rooted par ht S) (hp : S p) {f : P → Bool} (ha : Anc par a p)
    (hf : ∀ b, Anc par b p → (f b = true ↔ ¬ Anc par b a)) : (path par (ht p) p).countP f = ht p - ht a := by
  revert ha hf
  refine hR.induct_on (C := fun p => Anc par a p → (∀ b, Anc par b p → (f b = true ↔ ¬ Anc par b a)) →
    (path par (ht p) p).countP f = ht p - ht a) (fun p hp ih ha hf => ?_) p hp
  by_cases hap : a = p
  · subst hap
    rw [Nat.sub_self, List.countP_eq_zero]
    intro b hb
    have hba := (hR.mem_path hp).mp hb
    rw [hf b hba]
    exact fun hnot => hnot hba
  · obtain ⟨q, hq, haq⟩ := ha.of_ne hap
    have hfp : f p = true := (hf p (.refl p)).mpr fun hpa => hap (hR.anc_antisymm hp ha hpa)
    have hle := hR.anc_le (hR.mem hp hq) haq
    rw [hR.path_some hp hq, List.countP_cons_of_pos hfp, ih q hq haq fun b hb => hf b (.up hq hb), hR.succ hp hq]
    omega

end Rooted

end DigiWage.Lib
