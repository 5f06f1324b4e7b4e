import Mathlib.Data.List.Nodup
import Mathlib.Data.List.Basic
import Mathlib.Order.Lattice

/-!
# Orphans

Items arrive in any order. Each has a key and names the key of its parent; the key of the root needs no parent. An item whose parent is
not known waits. Any other is taken, unless its key is known already, and its key becomes known; then the items that wait for it are
taken, and those that wait for these.

* `Intake.known_iff`, `Intake.mem_waiting_iff`, `Intake.mem_taken_iff`: what they are once the queue is empty.
-/

namespace DigiWage.Lib

/-- Items with their keys and those of their parents. -/
structure Lineage (I K : Type*) where
  key : I → K
  parent : I → K
  root : K

namespace Lineage

variable {I K : Type*} {F : Lineage I K} {items : List I} {x y : I} {k : K}

/-- The keys that items link to the root. -/
inductive Linked (F : Lineage I K) (items : List I) : K → Prop
  | root {x : I} (hx : x ∈ items) (h : F.key x = F.root) : Linked F items (F.key x)
  | child {x : I} (hx : x ∈ items) (h : Linked F items (F.parent x)) : Linked F items (F.key x)

/-- An item of the root, or one whose parent is linked. -/
def Anchored (F : Lineage I K) (items : List I) (x : I) : Prop := F.key x = F.root ∨ F.Linked items (F.parent x)

theorem Linked.mono {items' : List I} (hsub : items ⊆ items') (h : F.Linked items k) : F.Linked items' k := by
  induction h with
  | root hx hroot => exact .root (hsub hx) hroot
  | child hx _ ih => exact .child (hsub hx) ih

theorem Anchored.mono {items' : List I} (hsub : items ⊆ items') (h : F.Anchored items x) : F.Anchored items' x :=
  h.imp_right (Linked.mono hsub)

theorem linked_iff : F.Linked items k ↔ ∃ x ∈ items, F.key x = k ∧ F.Anchored items x := by
  constructor
  · intro h
    cases h with
    | root hx hroot => exact ⟨_, hx, rfl, .inl hroot⟩
    | child hx hparent => exact ⟨_, hx, rfl, .inr hparent⟩
  · rintro ⟨x, hx, rfl, hroot | hparent⟩
    · exact .root hx hroot
    · exact .child hx hparent

/-! ## What came before -/

theorem count_map [DecidableEq K] (f : I → K) (l : List I) (k : K) : (l.map f).count k = (l.filter (f · = k)).length := by
  rw [List.count, List.countP_map, List.countP_eq_length_filter]
  rfl

theorem unique_of_count_map [DecidableEq K] {f : I → K} {l : List I} (h : (l.map f).count k = 1) (hx : x ∈ l) (hxk : f x = k)
    (hy : y ∈ l) (hyk : f y = k) : x = y := by
  rw [count_map] at h
  obtain ⟨z, hz⟩ := List.length_eq_one_iff.mp h
  have heq {a : I} (ha : a ∈ l) (hak : f a = k) : a = z := by
    have hmem : a ∈ l.filter (f · = k) := List.mem_filter.mpr ⟨ha, by simpa using hak⟩
    rw [hz] at hmem
    exact List.mem_singleton.mp hmem
  rw [heq hx hxk, heq hy hyk]

theorem count_map_eq_one [DecidableEq K] {f : I → K} {l : List I} (hnodup : l.Nodup) (hx : x ∈ l) (hxk : f x = k)
    (h : ∀ y ∈ l, f y = k → y = x) : (l.map f).count k = 1 := by
  have hperm : (l.filter (f · = k)).Perm [x] := by
    refine (List.perm_ext_iff_of_nodup (hnodup.filter _) (List.nodup_singleton x)).mpr fun y => ?_
    rw [List.mem_filter, List.mem_singleton, decide_eq_true_eq]
    exact ⟨fun hy => h y hy.1 hy.2, fun hy => hy ▸ ⟨hx, hxk⟩⟩
  rw [count_map, hperm.length_eq, List.length_singleton]

section before

variable [DecidableEq I]

/-- The items that came before an item. -/
def before (items : List I) (x : I) : List I := items.take (items.idxOf x)

theorem before_subset (items : List I) (x : I) : before items x ⊆ items := List.take_subset _ _

theorem before_concat (hx : x ∈ items) (y : I) : before (items ++ [y]) x = before items x := by
  have hlt : items.idxOf x < items.length := List.idxOf_lt_length_of_mem hx
  rw [before, List.idxOf_append_of_mem hx, List.take_append_of_le_length hlt.le, before]

theorem before_concat_self (hx : x ∉ items) : before (items ++ [x]) x = items := by
  rw [before, List.idxOf_append_of_notMem hx, List.idxOf_cons_self, Nat.add_zero, List.take_left]

theorem mem_before_iff (hx : x ∈ items) : x ∈ before items y ↔ items.idxOf x < items.idxOf y := List.mem_take_iff_idxOf_lt hx

theorem notMem_before_self (hx : x ∈ items) : x ∉ before items x := fun h => ((mem_before_iff hx).mp h).false

theorem before_total (hx : x ∈ items) (hy : y ∈ items) (hne : x ≠ y) : x ∈ before items y ∨ y ∈ before items x := by
  have hidx : items.idxOf x ≠ items.idxOf y := fun h => hne ((List.idxOf_inj hx).mp h)
  rcases Nat.lt_or_gt_of_ne hidx with h | h
  · exact .inl ((mem_before_iff hx).mpr h)
  · exact .inr ((mem_before_iff hy).mpr h)

theorem before_subset_before (hx : x ∈ before items y) : before items x ⊆ before items y := by
  have hlt := (mem_before_iff (before_subset _ _ hx)).mp hx
  exact List.take_subset_take_left _ hlt.le

/-- An item whose key was linked when it came. -/
def Repeated (F : Lineage I K) (items : List I) (x : I) : Prop :=
  F.Anchored (before items x) x ∧ F.Linked (before items x) (F.key x)

theorem exists_not_repeated : ∀ {n : Nat}, F.Linked (items.take n) k →
    ∃ x ∈ items.take n, F.key x = k ∧ F.Anchored (items.take n) x ∧ ¬ F.Repeated items x := by
  intro n
  induction n using Nat.strong_induction_on with
  | _ n ih =>
    intro h
    obtain ⟨x, hx, hkey, hanchored⟩ := linked_iff.mp h
    by_cases hrep : F.Repeated items x
    · have hlt := (List.mem_take_iff_idxOf_lt (List.take_subset _ _ hx)).mp hx
      have hsub : items.take (items.idxOf x) ⊆ items.take n := List.take_subset_take_left _ hlt.le
      obtain ⟨y, hy, hy'⟩ := ih _ hlt (hkey ▸ hrep.2)
      exact ⟨y, hsub hy, hy'.1, hy'.2.1.mono hsub, hy'.2.2⟩
    · exact ⟨x, hx, hkey, hanchored, hrep⟩

theorem repeated_concat (hx : x ∈ items) : F.Repeated (items ++ [y]) x ↔ F.Repeated items x := by
  rw [Repeated, before_concat hx, Repeated]

/-- No copy of an anchored item comes before both have an anchor. -/
def NoEarlyCopy (F : Lineage I K) (items : List I) : Prop :=
  ∀ x ∈ items, ∀ y ∈ before items x, F.key y = F.key x → F.Anchored items x → F.Anchored items y →
    F.Anchored (before items x) x ∧ F.Anchored (before items x) y

theorem noEarlyCopy_of_nodup (h : (items.map F.key).Nodup) : F.NoEarlyCopy items := by
  intro x hx y hy hkey
  rw [List.inj_on_of_nodup_map h (before_subset _ _ hy) hx hkey] at hy
  exact absurd hy (notMem_before_self hx)

/-! ## The intake -/

/-- What is known, what waits and what has been taken of the items that came, while the children of the keys in a queue are still to be
looked for. -/
structure Intake (F : Lineage I K) (items : List I) (known : K → Prop) (waiting taken : List I) (queue : List K) : Prop where
  nodup : items.Nodup
  sound : ∀ k, known k → F.Linked items k
  split : ∃ dropped, (waiting ++ (taken ++ dropped)).Perm items ∧ ∀ x ∈ dropped, F.Repeated items x
  settled : ∀ x ∈ items, x ∈ waiting ∨ known (F.key x)
  anchored : ∀ x ∈ taken, F.key x = F.root ∨ known (F.parent x)
  fresh : ∀ x ∈ taken, ¬ F.Repeated items x
  early : ∀ x ∈ waiting, ¬ F.Anchored (before items x) x
  stuck : ∀ x ∈ waiting, F.key x ≠ F.root ∧ (known (F.parent x) → F.parent x ∈ queue)

namespace Intake

variable {known : K → Prop} {waiting waiting' taken : List I} {queue : List K}

theorem empty (h : ∀ k, ¬ known k) : Intake F [] known [] [] [] where
  nodup := .nil
  sound k hk := absurd hk (h k)
  split := ⟨[], .refl _, fun _ hx => (List.not_mem_nil hx).elim⟩
  settled _ hx := (List.not_mem_nil hx).elim
  anchored _ hx := (List.not_mem_nil hx).elim
  fresh _ hx := (List.not_mem_nil hx).elim
  early _ hx := (List.not_mem_nil hx).elim
  stuck _ hx := (List.not_mem_nil hx).elim

theorem waiting_subset (h : Intake F items known waiting taken queue) : waiting ⊆ items := by
  obtain ⟨dropped, hperm, -⟩ := h.split
  exact fun x hx => hperm.subset (List.mem_append_left _ hx)

theorem taken_subset (h : Intake F items known waiting taken queue) : taken ⊆ items := by
  obtain ⟨dropped, hperm, -⟩ := h.split
  exact fun x hx => hperm.subset (List.mem_append_right _ (List.mem_append_left _ hx))

/-! ### When the queue is empty -/

theorem known_iff (h : Intake F items known waiting taken []) : known k ↔ F.Linked items k := by
  refine ⟨h.sound k, fun hlinked => ?_⟩
  induction hlinked with
  | root hx hroot => exact (h.settled _ hx).resolve_left fun hw => (h.stuck _ hw).1 hroot
  | child hx _ ih => exact (h.settled _ hx).resolve_left fun hw => List.not_mem_nil ((h.stuck _ hw).2 ih)

theorem not_anchored_of_waiting (h : Intake F items known waiting taken []) (hx : x ∈ waiting) : ¬ F.Anchored items x := by
  rintro (hroot | hparent)
  · exact (h.stuck x hx).1 hroot
  · exact List.not_mem_nil ((h.stuck x hx).2 (h.known_iff.mpr hparent))

theorem mem_waiting_iff (h : Intake F items known waiting taken []) : x ∈ waiting ↔ x ∈ items ∧ ¬ F.Anchored items x := by
  refine ⟨fun hx => ⟨h.waiting_subset hx, h.not_anchored_of_waiting hx⟩, ?_⟩
  rintro ⟨hx, hnot⟩
  obtain ⟨dropped, hperm, hrep⟩ := h.split
  rcases List.mem_append.mp (hperm.symm.subset hx) with hw | ht
  · exact hw
  · rcases List.mem_append.mp ht with ht | hd
    · exact absurd ((h.anchored x ht).imp_right (h.sound _)) hnot
    · exact absurd ((hrep x hd).1.mono (before_subset _ _)) hnot

theorem mem_taken_iff (h : Intake F items known waiting taken []) :
    x ∈ taken ↔ x ∈ items ∧ F.Anchored items x ∧ ¬ F.Repeated items x := by
  refine ⟨fun hx => ⟨h.taken_subset hx, (h.anchored x hx).imp_right (h.sound _), h.fresh x hx⟩, ?_⟩
  rintro ⟨hx, hanchored, hrep⟩
  obtain ⟨dropped, hperm, hdropped⟩ := h.split
  rcases List.mem_append.mp (hperm.symm.subset hx) with hw | ht
  · exact absurd hanchored (h.not_anchored_of_waiting hw)
  · exact (List.mem_append.mp ht).resolve_right fun hd => hrep (hdropped x hd)

theorem nodup_taken (h : Intake F items known waiting taken queue) : taken.Nodup := by
  obtain ⟨dropped, hperm, -⟩ := h.split
  exact ((hperm.nodup_iff.mpr h.nodup).of_append_right).of_append_left

theorem nodup_waiting (h : Intake F items known waiting taken queue) : waiting.Nodup := by
  obtain ⟨dropped, hperm, -⟩ := h.split
  exact (hperm.nodup_iff.mpr h.nodup).of_append_left

/-! ### The steps -/

/-- An item comes whose parent is not known. -/
theorem wait (h : Intake F items known waiting taken []) (hx : x ∉ items) (hroot : F.key x ≠ F.root) (hparent : ¬ known (F.parent x))
    (hperm : waiting'.Perm (x :: waiting)) : Intake F (items ++ [x]) known waiting' taken [] := by
  obtain ⟨dropped, hsplit, hrep⟩ := h.split
  have hsub : items ⊆ items ++ [x] := List.subset_append_left _ _
  have hmem : ∀ y, y ∈ waiting' ↔ y = x ∨ y ∈ waiting := fun y => hperm.mem_iff.trans List.mem_cons
  refine ⟨h.nodup.append (List.nodup_singleton x) (List.disjoint_singleton.mpr hx),
    fun k hk => (h.sound k hk).mono hsub, ⟨dropped, ?_, fun y hy => ?_⟩, fun y hy => ?_, h.anchored, fun y hy => ?_, fun y hy => ?_,
    fun y hy => ?_⟩
  · exact ((hperm.append_right _).trans (hsplit.cons x)).trans (List.perm_append_singleton x items).symm
  · have hy' : y ∈ items := hsplit.subset (List.mem_append_right _ (List.mem_append_right _ hy))
    exact (repeated_concat hy').mpr (hrep y hy)
  · rw [hmem]
    rcases List.mem_append.mp hy with hy | hy
    · exact (h.settled y hy).imp_left .inr
    · exact .inl (.inl (List.mem_singleton.mp hy))
  · rw [repeated_concat (h.taken_subset hy)]
    exact h.fresh y hy
  · rcases (hmem y).mp hy with rfl | hy
    · rw [before_concat_self hx]
      rintro (hroot' | hparent')
      · exact hroot hroot'
      · exact hparent (h.known_iff.mpr hparent')
    · rw [before_concat (h.waiting_subset hy)]
      exact h.early y hy
  · rcases (hmem y).mp hy with rfl | hy
    · exact ⟨hroot, fun hk => absurd hk hparent⟩
    · exact h.stuck y hy

/-- An item comes whose key is known already. -/
theorem drop (h : Intake F items known waiting taken []) (hx : x ∉ items) (hanchored : F.key x = F.root ∨ known (F.parent x))
    (hknown : known (F.key x)) : Intake F (items ++ [x]) known waiting taken [F.key x] := by
  obtain ⟨dropped, hsplit, hrep⟩ := h.split
  have hsub : items ⊆ items ++ [x] := List.subset_append_left _ _
  refine ⟨h.nodup.append (List.nodup_singleton x) (List.disjoint_singleton.mpr hx),
    fun k hk => (h.sound k hk).mono hsub, ⟨dropped ++ [x], ?_, fun y hy => ?_⟩, fun y hy => ?_, h.anchored, fun y hy => ?_,
    fun y hy => ?_, fun y hy => ⟨(h.stuck y hy).1, fun hk => absurd ((h.stuck y hy).2 hk) List.not_mem_nil⟩⟩
  · simpa [List.append_assoc] using hsplit.append_right [x]
  · rcases List.mem_append.mp hy with hy | hy
    · have hy' : y ∈ items := hsplit.subset (List.mem_append_right _ (List.mem_append_right _ hy))
      exact (repeated_concat hy').mpr (hrep y hy)
    · rw [List.mem_singleton.mp hy, Repeated, before_concat_self hx]
      exact ⟨hanchored.imp_right (h.sound _), h.sound _ hknown⟩
  · rcases List.mem_append.mp hy with hy | hy
    · exact h.settled y hy
    · rw [List.mem_singleton.mp hy]
      exact .inr hknown
  · rw [repeated_concat (h.taken_subset hy)]
    exact h.fresh y hy
  · rw [before_concat (h.waiting_subset hy)]
    exact h.early y hy

/-- An item comes that is taken. -/
theorem enter {known' : K → Prop} (h : Intake F items known waiting taken []) (hx : x ∉ items)
    (hanchored : F.key x = F.root ∨ known (F.parent x)) (hnew : ¬ known (F.key x)) (hknown : ∀ k, known' k ↔ known k ∨ k = F.key x) :
    Intake F (items ++ [x]) known' waiting (taken ++ [x]) [F.key x] := by
  obtain ⟨dropped, hsplit, hrep⟩ := h.split
  have hsub : items ⊆ items ++ [x] := List.subset_append_left _ _
  refine ⟨h.nodup.append (List.nodup_singleton x) (List.disjoint_singleton.mpr hx),
    fun k hk => ?_, ⟨dropped, ?_, fun y hy => ?_⟩, fun y hy => ?_, fun y hy => ?_, fun y hy => ?_, fun y hy => ?_, fun y hy => ?_⟩
  · rcases (hknown k).mp hk with hk | rfl
    · exact (h.sound k hk).mono hsub
    · exact linked_iff.mpr ⟨x, by simp, rfl, hanchored.imp_right fun hp => (h.sound _ hp).mono hsub⟩
  · have hmove : (waiting ++ (taken ++ [x] ++ dropped)).Perm (x :: (waiting ++ (taken ++ dropped))) := by
      simpa [List.append_assoc] using (@List.perm_middle _ x (waiting ++ taken) dropped)
    exact (hmove.trans (hsplit.cons x)).trans (List.perm_append_singleton x items).symm
  · have hy' : y ∈ items := hsplit.subset (List.mem_append_right _ (List.mem_append_right _ hy))
    exact (repeated_concat hy').mpr (hrep y hy)
  · rw [hknown]
    rcases List.mem_append.mp hy with hy | hy
    · exact (h.settled y hy).imp_right .inl
    · rw [List.mem_singleton.mp hy]
      exact .inr (.inr rfl)
  · rw [hknown]
    rcases List.mem_append.mp hy with hy | hy
    · exact (h.anchored y hy).imp_right .inl
    · rw [List.mem_singleton.mp hy]
      exact hanchored.imp_right .inl
  · rcases List.mem_append.mp hy with hy | hy
    · rw [repeated_concat (h.taken_subset hy)]
      exact h.fresh y hy
    · rw [List.mem_singleton.mp hy, Repeated, before_concat_self hx]
      exact fun hr => hnew (h.known_iff.mpr hr.2)
  · rw [before_concat (h.waiting_subset hy)]
    exact h.early y hy
  · rw [hknown]
    refine ⟨(h.stuck y hy).1, ?_⟩
    rintro (hk | hk)
    · exact absurd ((h.stuck y hy).2 hk) List.not_mem_nil
    · exact List.mem_singleton.mpr hk

/-- An item that waits is taken. -/
theorem child {known' : K → Prop} (h : Intake F items known waiting taken queue) (hperm : waiting.Perm (x :: waiting'))
    (hparent : known (F.parent x)) (hknown : ∀ k, known' k ↔ known k ∨ k = F.key x) :
    Intake F items known' waiting' (taken ++ [x]) (queue ++ [F.key x]) := by
  obtain ⟨dropped, hsplit, hrep⟩ := h.split
  have hmem : ∀ y, y ∈ waiting ↔ y = x ∨ y ∈ waiting' := fun y => hperm.mem_iff.trans List.mem_cons
  have hx : x ∈ waiting := (hmem x).mpr (.inl rfl)
  refine ⟨h.nodup, fun k hk => ?_, ⟨dropped, ?_, hrep⟩, fun y hy => ?_, fun y hy => ?_, fun y hy => ?_,
    fun y hy => h.early y ((hmem y).mpr (.inr hy)), fun y hy => ?_⟩
  · rcases (hknown k).mp hk with hk | rfl
    · exact h.sound k hk
    · exact .child (h.waiting_subset hx) (h.sound _ hparent)
  · refine List.Perm.trans ?_ hsplit
    have hmove : (waiting' ++ (taken ++ [x] ++ dropped)).Perm (x :: (waiting' ++ (taken ++ dropped))) := by
      simpa [List.append_assoc] using (@List.perm_middle _ x (waiting' ++ taken) dropped)
    exact hmove.trans (hperm.symm.append_right _)
  · rw [hknown]
    rcases h.settled y hy with hw | hk
    · rcases (hmem y).mp hw with rfl | hw
      · exact .inr (.inr rfl)
      · exact .inl hw
    · exact .inr (.inl hk)
  · rw [hknown]
    rcases List.mem_append.mp hy with hy | hy
    · exact (h.anchored y hy).imp_right .inl
    · rw [List.mem_singleton.mp hy]
      exact .inr (.inl hparent)
  · rcases List.mem_append.mp hy with hy | hy
    · exact h.fresh y hy
    · rw [List.mem_singleton.mp hy]
      exact fun hr => h.early x hx hr.1
  · rw [hknown]
    refine ⟨(h.stuck y ((hmem y).mpr (.inr hy))).1, ?_⟩
    rintro (hk | hk)
    · exact List.mem_append_left _ ((h.stuck y ((hmem y).mpr (.inr hy))).2 hk)
    · exact List.mem_append_right _ (List.mem_singleton.mpr hk)

/-- No item waits for a key. -/
theorem pop (h : Intake F items known waiting taken (k :: queue)) (hk : ∀ x ∈ waiting, F.parent x ≠ k) :
    Intake F items known waiting taken queue :=
  { h with stuck := fun x hx => ⟨(h.stuck x hx).1, fun hp => (List.mem_cons.mp ((h.stuck x hx).2 hp)).resolve_left (hk x hx)⟩ }

/-! ### Copies -/

theorem once_iff [DecidableEq K] (h : Intake F items known waiting taken []) :
    (∀ k, F.Linked items k → (taken.map F.key).count k = 1) ↔ F.NoEarlyCopy items := by
  have hfresh {n : Nat} {k : K} (hk : F.Linked (items.take n) k) :
      ∃ x ∈ items.take n, F.key x = k ∧ F.Anchored (items.take n) x ∧ x ∈ taken := by
    obtain ⟨x, hx, hkey, hanchored, hrep⟩ := exists_not_repeated hk
    have hsub : items.take n ⊆ items := List.take_subset _ _
    exact ⟨x, hx, hkey, hanchored, h.mem_taken_iff.mpr ⟨hsub hx, hanchored.mono hsub, hrep⟩⟩
  have hrepeated {x : I} (hx : x ∈ items) (hanchored : F.Anchored items x) (hnot : x ∉ taken) : F.Repeated items x := by
    by_contra hrep
    exact hnot (h.mem_taken_iff.mpr ⟨hx, hanchored, hrep⟩)
  constructor
  · intro hcount x hx y hy hkey hax hay
    have hyitems := before_subset _ _ hy
    have hunique : ∀ z ∈ taken, F.key z = F.key x → ∀ z' ∈ taken, F.key z' = F.key x → z = z' := by
      intro z hz hzx z' hz' hzx'
      exact unique_of_count_map (hcount _ (linked_iff.mpr ⟨x, hx, rfl, hax⟩)) hz hzx hz' hzx'
    have hyrep : y ∉ taken → F.Repeated items y := hrepeated hyitems hay
    have hxtaken : x ∉ taken := by
      intro hxt
      by_cases hyt : y ∈ taken
      · rw [hunique y hyt hkey x hxt rfl] at hy
        exact notMem_before_self hx hy
      · obtain ⟨z, hz, hzkey, -, hzt⟩ := hfresh (hyrep hyt).2
        rw [hunique z hzt (hzkey.trans hkey) x hxt rfl] at hz
        exact notMem_before_self hx (before_subset_before hy hz)
    obtain ⟨hanchored, hlinked⟩ := hrepeated hx hax hxtaken
    refine ⟨hanchored, ?_⟩
    by_cases hyt : y ∈ taken
    · obtain ⟨z, -, hzkey, hza, hzt⟩ := hfresh hlinked
      rwa [hunique z hzt hzkey y hyt hkey] at hza
    · exact (hyrep hyt).1.mono (before_subset_before hy)
  · intro hcopy k hk
    rw [← List.take_length (l := items)] at hk
    obtain ⟨x, -, hkey, -, hxt⟩ := hfresh hk
    refine count_map_eq_one h.nodup_taken hxt hkey fun y hyt hykey => ?_
    by_contra hne
    obtain ⟨hx, hax, hxrep⟩ := h.mem_taken_iff.mp hxt
    obtain ⟨hy, hay, hyrep⟩ := h.mem_taken_iff.mp hyt
    have hsame : F.key y = F.key x := hykey.trans hkey.symm
    rcases before_total hx hy (Ne.symm hne) with hbefore | hbefore
    · obtain ⟨h₁, h₂⟩ := hcopy y hy x hbefore hsame.symm hay hax
      exact hyrep ⟨h₁, linked_iff.mpr ⟨x, hbefore, hsame.symm, h₂⟩⟩
    · obtain ⟨h₁, h₂⟩ := hcopy x hx y hbefore hsame hax hay
      exact hxrep ⟨h₁, linked_iff.mpr ⟨y, hbefore, hsame, h₂⟩⟩

end Intake

end before

end Lineage

end DigiWage.Lib
