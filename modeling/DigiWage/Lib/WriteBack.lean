import Mathlib.Data.List.Sigma
import Mathlib.Tactic.Common

/-!
# Write-back layers with dirty and fresh flags

One slot of a cache over a layer below, for values some of which are *blank* (as good as absent).

* An entry is *dirty* when it may differ from the layer below, and *fresh* when the layer below shows a blank.
* `Slot` relates the entry of a slot to what the layer below shows and to what the slot shows; it survives a fetch
  (`Slot.fetch`), an edit (`Slot.modify`) and the write of a dirty child slot (`Slot.write`).
* A write never finds a missing slot under an entry that is not fresh (the first half of `Slot.write`), because an
  entry that is not fresh was pulled through the layer below.
* A loop over the entries of a map that works on one slot at a time works on each slot once (`foldlM_slots`).
-/

namespace DigiWage.Lib.WriteBack

variable {V : Type*}

/-- A cached value with its flags. -/
structure Entry (V : Type*) where
  val : V
  dirty : Bool
  fresh : Bool
deriving DecidableEq, Repr

/-- Equal, or both blank. -/
def Same (blank : V → Bool) (v w : V) : Prop := v = w ∨ (blank v = true ∧ blank w = true)

variable {blank : V → Bool}

theorem Same.refl (v : V) : Same blank v v := Or.inl rfl

theorem Same.symm {v w : V} (h : Same blank v w) : Same blank w v := by
  rcases h with rfl | ⟨hv, hw⟩
  · exact .refl _
  · exact Or.inr ⟨hw, hv⟩

theorem Same.trans {u v w : V} (h : Same blank u v) (h' : Same blank v w) : Same blank u w := by
  rcases h with rfl | ⟨hu, hv⟩
  · exact h'
  · rcases h' with rfl | ⟨-, hw⟩
    · exact Or.inr ⟨hu, hv⟩
    · exact Or.inr ⟨hu, hw⟩

theorem Same.blank_eq {v w : V} (h : Same blank v w) : blank v = blank w := by
  rcases h with rfl | ⟨hv, hw⟩
  · rfl
  · rw [hv, hw]

theorem Same.of_blank {v w : V} (hv : blank v = true) (hw : blank w = true) : Same blank v w := Or.inr ⟨hv, hw⟩

/-! ## Slots -/

/-- A slot with the entry `e` shows `top` over a layer that shows `below`; `pulled` says that the layer below has an
entry of its own (or is the base). -/
def Slot (blank : V → Bool) (pulled : Prop) : Option (Entry V) → (below top : V) → Prop
  | none, below, top => Same blank below top
  | some e, below, top => Same blank e.val top ∧ (e.fresh = true → blank below = true) ∧
      (e.dirty = false → Same blank below top) ∧ (e.fresh = false → pulled)

variable {pulled : Prop} {below top : V}

theorem Slot.congr {e : Option (Entry V)} {top' : V} (h : Slot blank pulled e below top) (ht : Same blank top top') :
    Slot blank pulled e below top' := by
  cases e with
  | none => exact Same.trans h ht
  | some e =>
    obtain ⟨h₁, h₂, h₃, h₄⟩ := h
    exact ⟨h₁.trans ht, h₂, fun hd => (h₃ hd).trans ht, h₄⟩

theorem Slot.mono {pulled' : Prop} {e : Option (Entry V)} (h : Slot blank pulled e below top)
    (hp : pulled → pulled') : Slot blank pulled' e below top := by
  cases e with
  | none => exact h
  | some e => exact ⟨h.1, h.2.1, h.2.2.1, fun hf => hp (h.2.2.2 hf)⟩

theorem Slot.fetch {v : V} (h : Slot blank pulled none below top) (hv : Same blank v below) {p' : Prop} (hp : p') :
    Slot blank p' (some ⟨v, false, blank v⟩) below top :=
  ⟨hv.trans h, fun hf => by rw [← hv.blank_eq]; exact hf, fun _ => h, fun _ => hp⟩

theorem Slot.create {v : V} (h : Slot blank pulled none below top) (hv : blank v = true) (hb : blank below = true) :
    Slot blank pulled (some ⟨v, false, true⟩) below top :=
  ⟨Same.trans (.of_blank hv hb) h, fun _ => hb, fun _ => h, fun hf => by cases hf⟩

/-- The entry after an edit: a fresh blank is dropped. -/
def modified (blank : V → Bool) (e : Entry V) (v : V) : Option (Entry V) :=
  if e.fresh && blank v then none else some ⟨v, true, e.fresh⟩

theorem Slot.modify {e : Entry V} {v top' : V} (h : Slot blank pulled (some e) below top) (hv : Same blank v top') :
    Slot blank pulled (modified blank e v) below top' := by
  obtain ⟨-, h₂, -, h₄⟩ := h
  unfold modified
  split
  · rename_i hc
    rw [Bool.and_eq_true] at hc
    exact Same.trans (.of_blank (h₂ hc.1) hc.2) hv
  · exact ⟨hv, h₂, fun hd => (by cases hd), h₄⟩

/-! ## Writing a child back -/

/-- Writing a dirty child entry into the slot of the parent; `none` when the parent lacks an entry that the child did
not find missing. -/
def written (blank : V → Bool) (us : Option (Entry V)) (it : Entry V) : Option (Option (Entry V)) :=
  match us with
  | none => if blank it.val then some none else if it.fresh then some (some ⟨it.val, true, true⟩) else none
  | some e => if e.fresh && blank it.val then some none else some (some ⟨it.val, true, e.fresh⟩)

/-- **Writing back succeeds and shows what the child showed.** -/
theorem Slot.write {us : Option (Entry V)} {it : Entry V} {top' : V} (h : Slot blank pulled us below top)
    (hc : Slot blank (us.isSome = true) (some it) top top') :
    ∃ us', written blank us it = some us' ∧ Slot blank pulled us' below top' := by
  obtain ⟨h₁, h₂, -, h₄⟩ := hc
  cases us with
  | none =>
    -- the child found nothing in the parent, so its entry is fresh and everything below is blank
    have hfresh : it.fresh = true := by
      by_contra hf
      exact absurd (h₄ (by simpa using hf)) (by simp)
    have hbelow : blank below = true := by rw [Same.blank_eq h]; exact h₂ hfresh
    cases hb : blank it.val with
    | true =>
      refine ⟨none, by simp [written, hb], ?_⟩
      exact Same.trans (.of_blank hbelow hb) h₁
    | false =>
      refine ⟨some ⟨it.val, true, true⟩, by simp [written, hb, hfresh], h₁, fun _ => hbelow, ?_, ?_⟩ <;>
      · intro hd
        cases hd
  | some e =>
    refine ⟨modified blank e it.val, ?_, h.modify h₁⟩
    simp only [written, modified]
    split <;> rfl

/-! ## Loops over the entries of a map -/

section Loop

variable {K S W : Type*} [DecidableEq K] (get : S → K → W) (step : S → K → V → Option S) (f : V → W → Option W)

/-- A loop whose body works on the slot of its entry only: each slot is worked on once, with the entry of its key. -/
theorem foldlM_slots (hstep : ∀ s k v w, f v (get s k) = some w →
    ∃ s', step s k v = some s' ∧ ∀ t, get s' t = if t = k then w else get s t) :
    ∀ (l : List (Sigma fun _ : K => V)), l.NodupKeys → ∀ s, (∀ k v, l.dlookup k = some v → ∃ w, f v (get s k) = some w) →
      ∃ s', l.foldlM (fun s kv => step s kv.1 kv.2) s = some s' ∧ (∀ t, l.dlookup t = none → get s' t = get s t) ∧
        ∀ t v, l.dlookup t = some v → f v (get s t) = some (get s' t)
  | [], _, s, _ => ⟨s, rfl, fun _ _ => rfl, fun _ _ h => by cases h⟩
  | ⟨k, v⟩ :: l, hnd, s, h => by
    obtain ⟨hk, hnd⟩ := List.nodupKeys_cons.mp hnd
    have hkl : l.dlookup k = none := List.dlookup_eq_none.mpr hk
    obtain ⟨w, hw⟩ := h k v (List.dlookup_cons_eq l k v)
    obtain ⟨s₁, hs₁, hget⟩ := hstep s k v w hw
    have hne : ∀ {t v'}, l.dlookup t = some v' → t ≠ k := by
      rintro t v' ht rfl
      rw [hkl] at ht
      cases ht
    obtain ⟨s', hs', hnone, hsome⟩ := foldlM_slots hstep l hnd s₁ fun t v' ht => by
      rw [hget, if_neg (hne ht)]
      exact h t v' (by rw [List.dlookup_cons_ne l ⟨k, v⟩ (hne ht)]; exact ht)
    refine ⟨s', by rw [List.foldlM_cons, hs₁]; exact hs', fun t ht => ?_, fun t v' ht => ?_⟩
    · have htk : t ≠ k := by
        rintro rfl
        rw [List.dlookup_cons_eq] at ht
        cases ht
      rw [List.dlookup_cons_ne l ⟨k, v⟩ htk] at ht
      rw [hnone t ht, hget, if_neg htk]
    · by_cases htk : t = k
      · subst htk
        rw [List.dlookup_cons_eq] at ht
        cases ht
        rw [hnone t hkl, hget, if_pos rfl]
        exact hw
      · rw [List.dlookup_cons_ne l ⟨k, v⟩ htk] at ht
        have := hsome t v' ht
        rwa [hget, if_neg htk] at this

end Loop

end DigiWage.Lib.WriteBack
