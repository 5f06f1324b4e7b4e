import DigiWage.Chain.Index
import Mathlib.Data.List.Pairwise

/-!
# Skip pointers

`CBlockIndex::GetAncestor` and `BuildSkip` of `main.cpp`. A skip pointer is found by `GetAncestor` on the parent, so that
the walk over skip pointers and the pointers depend on one another. `AddToBlockIndex` calls `BuildSkip` for each entry it
makes, and `LoadBlockIndexDB` calls it for the entries in the order of their heights.
-/

namespace DigiWage

open Lib

/-! ## Building -/

/-- `BuildSkip`, as `LoadBlockIndexDB` calls it for an entry. -/
def buildSkip (entry : Ptr → CBlockIndex) (p : Ptr) : Ptr → CBlockIndex :=
  match (entry p).pprev with
  | none => entry
  | some pprev =>
    Function.update entry p { entry p with pskip := getAncestor entry pprev (getSkipHeight (entry p).nHeight) }

/-- `BuildSkip` for one entry after the other. -/
def buildSkips (entry : Ptr → CBlockIndex) (order : List Ptr) : Ptr → CBlockIndex := order.foldl buildSkip entry

/-- `vSortedByHeight`: the entries by height, and those of one height by address. -/
def vSortedByHeight (entry : Ptr → CBlockIndex) (mapBlockIndex : List Ptr) : List Ptr :=
  mapBlockIndex.mergeSort fun p q => decide ((entry p).nHeight < (entry q).nHeight) ||
    decide ((entry p).nHeight = (entry q).nHeight) && decide (p ≤ q)

/-- The entries after the loop of `LoadBlockIndexDB`, as far as skip pointers go. -/
def loadSkips (entry : Ptr → CBlockIndex) (mapBlockIndex : List Ptr) : Ptr → CBlockIndex :=
  buildSkips entry (vSortedByHeight entry mapBlockIndex)

/-- The index after `AddToBlockIndex` for some blocks, each with the address that its entry gets. -/
def addAll (blocks : List (Ptr × CBlockHeader)) : BlockIndex :=
  blocks.foldl (fun t b => t.add b.1 b.2) .empty

/-! ## Walking -/

/-- The entry reached by following `pprev` some times. -/
def followPprev (entry : Ptr → CBlockIndex) : Nat → Ptr → Option Ptr
  | 0, p => some p
  | n + 1, p => (entry p).pprev.bind (followPprev entry n)

section walk

variable {entry : Ptr → CBlockIndex} {S : Ptr → Prop} {a p : Ptr}

theorem followPprev_of_anc (hR : Rooted (fun p => (entry p).pprev) (fun p => (entry p).nHeight) S) (hp : S p)
    (h : Anc (fun p => (entry p).pprev) a p) : followPprev entry ((entry p).nHeight - (entry a).nHeight) p = some a := by
  induction h with
  | refl => rw [Nat.sub_self, followPprev]
  | up hpq hanc ih =>
    rename_i p q
    have hsucc : (entry p).nHeight = (entry q).nHeight + 1 := hR.succ hp hpq
    have hle := hR.anc_le (hR.mem hp hpq) hanc
    rw [hsucc, Nat.succ_sub hle, followPprev, hpq]
    exact ih (hR.mem hp hpq)

theorem getAncestorLoop_eq (hR : Rooted (fun p => (entry p).pprev) (fun p => (entry p).nHeight) S) (hskip : SkipOk entry S)
    (hp : S p) {height fuel : Nat} (hh : height ≤ (entry p).nHeight) (hfuel : (entry p).nHeight - height ≤ fuel) :
    (followPprev entry ((entry p).nHeight - height) p).isSome = true ∧
      getAncestorLoop entry height fuel p (entry p).nHeight = followPprev entry ((entry p).nHeight - height) p := by
  obtain ⟨a, ha, hanc, rfl⟩ := getAncestorLoop_spec hR hskip fuel hp (by omega) hh
  rw [ha, followPprev_of_anc hR hp hanc]
  exact ⟨rfl, rfl⟩

end walk

/-- `GetAncestor` follows no null pointer and comes, in however many more rounds it may take, to the entry that is reached
by following `pprev`. -/
def AncestorExact (entry : Ptr → CBlockIndex) (x : Ptr) (height : Nat) : Prop :=
  (followPprev entry ((entry x).nHeight - height) x).isSome = true ∧
    getAncestor entry x height = followPprev entry ((entry x).nHeight - height) x ∧
    ∀ fuel, (entry x).nHeight - height ≤ fuel →
      getAncestorLoop entry height fuel x (entry x).nHeight = followPprev entry ((entry x).nHeight - height) x

theorem ancestorExact_of_skipOk {entry : Ptr → CBlockIndex} {S : Ptr → Prop}
    (hR : Rooted (fun p => (entry p).pprev) (fun p => (entry p).nHeight) S) (hskip : SkipOk entry S) {x : Ptr} (hx : S x)
    {height : Nat} (hh : height ≤ (entry x).nHeight) : AncestorExact entry x height := by
  have hloop := getAncestorLoop_eq hR hskip hx hh (Nat.sub_le _ _)
  refine ⟨hloop.1, ?_, fun fuel hfuel => (getAncestorLoop_eq hR hskip hx hh hfuel).2⟩
  rw [getAncestor, if_neg (Nat.not_lt.mpr hh)]
  exact hloop.2

/-! ## Parents first -/

theorem buildSkip_pprev (entry : Ptr → CBlockIndex) (p q : Ptr) : (buildSkip entry p q).pprev = (entry q).pprev ∧
    (buildSkip entry p q).nHeight = (entry q).nHeight := by
  cases hpar : (entry p).pprev with
  | none =>
    simp only [buildSkip, hpar]
    exact ⟨trivial, trivial⟩
  | some pprev =>
    simp only [buildSkip, hpar]
    by_cases hq : q = p
    · subst hq
      simp [hpar]
    · simp [hq]

theorem buildSkip_of_ne {entry : Ptr → CBlockIndex} {p q : Ptr} (hne : q ≠ p) : buildSkip entry p q = entry q := by
  cases hpar : (entry p).pprev with
  | none => simp only [buildSkip, hpar]
  | some pprev =>
    simp only [buildSkip, hpar]
    exact Function.update_of_ne hne _ _

theorem rooted_congr {entry entry' : Ptr → CBlockIndex} {S : Ptr → Prop}
    (heq : ∀ q, (entry' q).pprev = (entry q).pprev ∧ (entry' q).nHeight = (entry q).nHeight)
    (hR : Rooted (fun p => (entry p).pprev) (fun p => (entry p).nHeight) S) :
    Rooted (fun p => (entry' p).pprev) (fun p => (entry' p).nHeight) S := by
  have hpprev : (fun p => (entry' p).pprev) = fun p => (entry p).pprev := funext fun q => (heq q).1
  have hheight : (fun p => (entry' p).nHeight) = fun p => (entry p).nHeight := funext fun q => (heq q).2
  rw [hpprev, hheight]
  exact hR

theorem skipOk_buildSkip {entry : Ptr → CBlockIndex} {S : Ptr → Prop} {p : Ptr}
    (hR : Rooted (fun p => (entry p).pprev) (fun p => (entry p).nHeight) S) (hskip : SkipOk entry S) (hp : ¬ S p)
    (hparent : ∀ q, (entry p).pprev = some q → S q ∧ (entry p).nHeight = (entry q).nHeight + 1) :
    SkipOk (buildSkip entry p) fun q => S q ∨ q = p := by
  have hkeep : ∀ q, S q → buildSkip entry p q = entry q := fun q hq => buildSkip_of_ne (by rintro rfl; exact hp hq)
  have hpprev : (fun q => (buildSkip entry p q).pprev) = fun q => (entry q).pprev :=
    funext fun q => (buildSkip_pprev entry p q).1
  intro r hr q hrq
  rw [(buildSkip_pprev entry p r).1] at hrq
  rcases hr with hr | rfl
  · obtain ⟨a, ha, hanc, hah⟩ := hskip r hr q hrq
    have haS := hR.anc_mem (hR.mem hr hrq) hanc
    refine ⟨a, ?_, by rw [hpprev]; exact hanc, ?_⟩
    · rw [hkeep r hr]
      exact ha
    · rw [hkeep a haS, hkeep r hr]
      exact hah
  · obtain ⟨hq, hheight⟩ := hparent q hrq
    have hlt := getSkipHeight_lt (show 0 < (entry r).nHeight by omega)
    obtain ⟨a, ha, hanc, hah⟩ := getAncestor_spec hR hskip hq (show getSkipHeight (entry r).nHeight ≤ (entry q).nHeight by omega)
    have haS := hR.anc_mem hq hanc
    refine ⟨a, ?_, by rw [hpprev]; exact hanc, ?_⟩
    · simp only [buildSkip, hrq, Function.update_self]
      exact ha
    · rw [hkeep a haS, (buildSkip_pprev entry r r).2]
      exact hah

/-- Each entry comes once, and after its parent. -/
def ParentsFirst (entry : Ptr → CBlockIndex) (order : List Ptr) : Prop :=
  order.Nodup ∧ ∀ before p after q, order = before ++ p :: after → (entry p).pprev = some q → q ∈ before

theorem skipOk_buildSkips_append : ∀ (after before : List Ptr) {entry : Ptr → CBlockIndex},
    Rooted (fun p => (entry p).pprev) (fun p => (entry p).nHeight) (· ∈ before ++ after) →
    ParentsFirst entry (before ++ after) →
    Rooted (fun p => (entry p).pprev) (fun p => (entry p).nHeight) (· ∈ before) → SkipOk entry (· ∈ before) →
    Rooted (fun p => (buildSkips entry after p).pprev) (fun p => (buildSkips entry after p).nHeight) (· ∈ before ++ after) ∧
      SkipOk (buildSkips entry after) (· ∈ before ++ after)
  | [], before, entry, _, _, hbefore, hskip => by
    rw [List.append_nil]
    exact ⟨hbefore, hskip⟩
  | p :: after, before, entry, hall, hfirst, hbefore, hskip => by
    have hp : p ∉ before := fun hp => (List.nodup_append.mp hfirst.1).2.2 p hp p (List.mem_cons_self ..) rfl
    have hpmem : p ∈ before ++ p :: after := List.mem_append_right _ (List.mem_cons_self ..)
    have hkeep := buildSkip_pprev entry p
    have happend : before ++ p :: after = (before ++ [p]) ++ after := by rw [List.append_assoc, List.singleton_append]
    have hparent : ∀ q, (entry p).pprev = some q → q ∈ before ∧ (entry p).nHeight = (entry q).nHeight + 1 :=
      fun q hpq => ⟨hfirst.2 before p after q rfl hpq, hall.succ hpmem hpq⟩
    have hdone := skipOk_buildSkip hbefore hskip hp hparent
    have hR : Rooted (fun q => (buildSkip entry p q).pprev) (fun q => (buildSkip entry p q).nHeight) (· ∈ before ++ [p]) := by
      refine rooted_congr hkeep ⟨fun {r q} hr hrq => ?_, fun {r q} hr hrq => ?_, fun {r} hr hrq => ?_⟩
      · rcases List.mem_append.mp hr with hr | hr
        · exact List.mem_append_left _ (hbefore.mem hr hrq)
        · rw [List.mem_singleton.mp hr] at hrq
          exact List.mem_append_left _ (hparent q hrq).1
      · refine hall.succ ?_ hrq
        rw [happend]
        exact List.mem_append_left _ hr
      · refine hall.root ?_ hrq
        rw [happend]
        exact List.mem_append_left _ hr
    rw [happend] at hall hfirst ⊢
    refine skipOk_buildSkips_append after (before ++ [p]) (rooted_congr hkeep hall) ⟨hfirst.1, ?_⟩ hR ?_
    · intro before' r after' q heq hrq
      rw [(hkeep r).1] at hrq
      exact hfirst.2 before' r after' q heq hrq
    · simpa only [List.mem_append, List.mem_singleton] using hdone

theorem skipOk_buildSkips {entry : Ptr → CBlockIndex} {order : List Ptr}
    (hR : Rooted (fun p => (entry p).pprev) (fun p => (entry p).nHeight) (· ∈ order)) (hfirst : ParentsFirst entry order) :
    Rooted (fun p => (buildSkips entry order p).pprev) (fun p => (buildSkips entry order p).nHeight) (· ∈ order) ∧
      SkipOk (buildSkips entry order) (· ∈ order) :=
  skipOk_buildSkips_append order [] hR hfirst ⟨by simp, by simp, by simp⟩ (by simp [SkipOk])

theorem buildSkips_pprev : ∀ (order : List Ptr) (entry : Ptr → CBlockIndex) (q : Ptr),
    (buildSkips entry order q).pprev = (entry q).pprev ∧ (buildSkips entry order q).nHeight = (entry q).nHeight
  | [], _, _ => ⟨rfl, rfl⟩
  | p :: rest, entry, q => by
    have hrest := buildSkips_pprev rest (buildSkip entry p) q
    have hp := buildSkip_pprev entry p q
    exact ⟨hrest.1.trans hp.1, hrest.2.trans hp.2⟩

theorem parentsFirst_vSortedByHeight {entry : Ptr → CBlockIndex} {mapBlockIndex : List Ptr} (hnodup : mapBlockIndex.Nodup)
    (hR : Rooted (fun p => (entry p).pprev) (fun p => (entry p).nHeight) (· ∈ mapBlockIndex)) :
    ParentsFirst entry (vSortedByHeight entry mapBlockIndex) := by
  have hsorted : (vSortedByHeight entry mapBlockIndex).Pairwise fun p q => (entry p).nHeight ≤ (entry q).nHeight := by
    refine List.Pairwise.imp (fun {p q} h => ?_) (List.pairwise_mergeSort ?_ ?_ mapBlockIndex)
    · simp only [Bool.or_eq_true, Bool.and_eq_true, decide_eq_true_eq] at h
      omega
    · intro p q r hpq hqr
      simp only [Bool.or_eq_true, Bool.and_eq_true, decide_eq_true_eq] at hpq hqr ⊢
      rcases hpq with hpq | ⟨hpq, hle⟩ <;> rcases hqr with hqr | ⟨hqr, hle'⟩
      · exact Or.inl (Nat.lt_trans hpq hqr)
      · exact Or.inl (hqr ▸ hpq)
      · exact Or.inl (hpq ▸ hqr)
      · exact Or.inr ⟨hpq.trans hqr, Nat.le_trans hle hle'⟩
    · intro p q
      simp only [Bool.or_eq_true, Bool.and_eq_true, decide_eq_true_eq]
      rcases Nat.lt_trichotomy (entry p).nHeight (entry q).nHeight with h | h | h
      · exact Or.inl (Or.inl h)
      · rcases Nat.le_total p q with hle | hle
        · exact Or.inl (Or.inr ⟨h, hle⟩)
        · exact Or.inr (Or.inr ⟨h.symm, hle⟩)
      · exact Or.inr (Or.inl h)
  refine ⟨(List.mergeSort_perm _ _).nodup_iff.mpr hnodup, ?_⟩
  intro before p after q heq hpq
  have hmem : ∀ r, r ∈ before ++ p :: after ↔ r ∈ mapBlockIndex := fun r => by
    rw [← heq]
    exact List.mem_mergeSort
  have hp := (hmem p).mp (List.mem_append_right _ (List.mem_cons_self ..))
  have hsucc : (entry p).nHeight = (entry q).nHeight + 1 := hR.succ hp hpq
  have hq := (hmem q).mpr (hR.mem hp hpq)
  rw [heq] at hsorted
  have hafter := List.pairwise_cons.mp (List.pairwise_append.mp hsorted).2.1
  rcases List.mem_append.mp hq with hq | hq
  · exact hq
  · rcases List.mem_cons.mp hq with rfl | hq
    · omega
    · have := hafter.1 q hq
      omega

/-! ## Exactness -/

/-- On every index that `AddToBlockIndex` built, on every tree whose skip pointers are built parents first, and on every
tree that `LoadBlockIndexDB` loaded, `GetAncestor` is exact at each height up to that of the entry. -/
theorem getAncestor_exact :
    (∀ (blocks : List (Ptr × CBlockHeader)), ∀ x ∈ (addAll blocks).mapBlockIndex, ∀ height,
      height ≤ ((addAll blocks).entry x).nHeight → AncestorExact (addAll blocks).entry x height) ∧
    (∀ (entry : Ptr → CBlockIndex) (order : List Ptr),
      Rooted (fun p => (entry p).pprev) (fun p => (entry p).nHeight) (· ∈ order) → ParentsFirst entry order →
      ∀ x ∈ order, ∀ height, height ≤ (entry x).nHeight → AncestorExact (buildSkips entry order) x height) ∧
    (∀ (entry : Ptr → CBlockIndex) (mapBlockIndex : List Ptr), mapBlockIndex.Nodup →
      Rooted (fun p => (entry p).pprev) (fun p => (entry p).nHeight) (· ∈ mapBlockIndex) →
      ∀ x ∈ mapBlockIndex, ∀ height, height ≤ (entry x).nHeight →
        AncestorExact (loadSkips entry mapBlockIndex) x height) := by
  have hbuilt : ∀ (entry : Ptr → CBlockIndex) (order : List Ptr),
      Rooted (fun p => (entry p).pprev) (fun p => (entry p).nHeight) (· ∈ order) → ParentsFirst entry order →
      ∀ x ∈ order, ∀ height, height ≤ (entry x).nHeight → AncestorExact (buildSkips entry order) x height := by
    intro entry order hR hfirst x hx height hh
    obtain ⟨hrooted, hskip⟩ := skipOk_buildSkips hR hfirst
    rw [← (buildSkips_pprev order entry x).2] at hh
    exact ancestorExact_of_skipOk hrooted hskip hx hh
  refine ⟨fun blocks x hx height hh => ?_, hbuilt, fun entry mapBlockIndex hnodup hR x hx height hh => ?_⟩
  · exact ancestorExact_of_skipOk (addAll blocks).rooted_entry (addAll blocks).skip hx hh
  · have hmem : ∀ r, r ∈ vSortedByHeight entry mapBlockIndex ↔ r ∈ mapBlockIndex := fun r => List.mem_mergeSort
    refine hbuilt entry _ ?_ (parentsFirst_vSortedByHeight hnodup hR) x ((hmem x).mpr hx) height hh
    simpa only [hmem] using hR

/-- A chain of seven entries, loaded in the order of a map: from the top, heights 1 and 4 are found. -/
theorem getAncestor_exact_chain :
    AncestorExact (loadSkips (fun p => ⟨p, if p = 0 then none else some (p - 1), none, p, 0, 0, 0, 0, 0, 0⟩)
      [4, 0, 6, 2, 1, 5, 3]) 6 1 ∧
    AncestorExact (loadSkips (fun p => ⟨p, if p = 0 then none else some (p - 1), none, p, 0, 0, 0, 0, 0, 0⟩)
      [4, 0, 6, 2, 1, 5, 3]) 6 4 := by
  have hR : Rooted (fun p : Ptr => if p = 0 then none else some (p - 1)) (fun p => p)
      (· ∈ ([4, 0, 6, 2, 1, 5, 3] : List Nat)) := by
    have hmem : ∀ p : Nat, p ∈ [4, 0, 6, 2, 1, 5, 3] ↔ p < 7 := by
      intro p
      simp only [List.mem_cons, List.not_mem_nil, or_false]
      omega
    have hpprev : ∀ {p q : Nat}, (if p = 0 then none else some (p - 1)) = some q → p = q + 1 := by
      intro p q hpq
      split at hpq
      · cases hpq
      · cases hpq
        omega
    refine ⟨fun {p q} hp hpq => ?_, fun _ hpq => hpprev hpq, fun {p} _ hpq => ?_⟩
    · have hlt := (hmem p).mp hp
      have hsucc := hpprev hpq
      exact (hmem q).mpr (by omega)
    · by_contra hne
      rw [if_neg hne] at hpq
      cases hpq
  exact ⟨getAncestor_exact.2.2 _ _ (by decide) hR 6 (by decide) 1 (by decide),
    getAncestor_exact.2.2 _ _ (by decide) hR 6 (by decide) 4 (by decide)⟩

end DigiWage
