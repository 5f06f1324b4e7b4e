import Mathlib.Data.List.Nodup
import Mathlib.Logic.Relation

/-!
# Worklists

A search of a graph from some nodes: a queue of what is still to be looked at, and the list of what has been taken. A node
that is looked at is dropped when it is absent or taken already; else it is taken, and its successors are queued. Of these
the search may leave out the ones that it has taken.

* `Worklist.init`, `Worklist.skip` and `Worklist.take`: the invariant of the search at its start and along its two steps.
* `Worklist.mem_iff`: once the queue is empty, the nodes taken are the present ones that are reached.
-/

namespace DigiWage.Lib

variable {α : Type*} {start present : α → Prop} {edge : α → α → Prop}

/-- What is reached from the start along edges. -/
def ReachedFrom (start : α → Prop) (edge : α → α → Prop) (x : α) : Prop := ∃ s, start s ∧ Relation.ReflTransGen edge s x

theorem ReachedFrom.self {x : α} (h : start x) : ReachedFrom start edge x := ⟨x, h, .refl⟩

theorem ReachedFrom.tail {x y : α} (h : ReachedFrom start edge x) (hedge : edge x y) : ReachedFrom start edge y := by
  obtain ⟨s, hs, hpath⟩ := h
  exact ⟨s, hs, hpath.tail hedge⟩

theorem ReachedFrom.rec_on {P : α → Prop} {x : α} (h : ReachedFrom start edge x) (hstart : ∀ x, start x → P x)
    (hedge : ∀ x y, ReachedFrom start edge x → edge x y → P x → P y) : P x := by
  obtain ⟨s, hs, hpath⟩ := h
  induction hpath with
  | refl => exact hstart s hs
  | tail hpath hstep ih => exact hedge _ _ ⟨s, hs, hpath⟩ hstep ih

/-- What a search has left to do and what it has done. -/
structure Worklist (start present : α → Prop) (edge : α → α → Prop) (queue taken : List α) : Prop where
  queued : ∀ x ∈ queue, ReachedFrom start edge x
  reached : ∀ x ∈ taken, ReachedFrom start edge x
  there : ∀ x ∈ taken, present x
  nodup : taken.Nodup
  started : ∀ x, start x → present x → x ∈ queue ∨ x ∈ taken
  followed : ∀ x ∈ taken, ∀ y, edge x y → present y → y ∈ queue ∨ y ∈ taken

namespace Worklist

variable {x : α} {queue next taken : List α}

theorem init (hqueue : ∀ x ∈ queue, start x) (hstart : ∀ x, start x → present x → x ∈ queue) :
    Worklist start present edge queue [] where
  queued x hx := .self (hqueue x hx)
  reached := by simp
  there := by simp
  nodup := .nil
  started x hx hp := .inl (hstart x hx hp)
  followed := by simp

theorem skip (h : Worklist start present edge (x :: queue) taken) (hx : ¬ present x ∨ x ∈ taken) :
    Worklist start present edge queue taken := by
  have hdrop : ∀ y, present y → y ∈ x :: queue ∨ y ∈ taken → y ∈ queue ∨ y ∈ taken := by
    intro y hp hy
    rcases hy with hy | hy
    · rcases List.mem_cons.mp hy with rfl | hy
      · exact .inr (hx.resolve_left fun hnot => hnot hp)
      · exact .inl hy
    · exact .inr hy
  exact ⟨fun y hy => h.queued y (List.mem_cons_of_mem x hy), h.reached, h.there, h.nodup,
    fun y hs hp => hdrop y hp (h.started y hs hp), fun z hz y he hp => hdrop y hp (h.followed z hz y he hp)⟩

theorem take (h : Worklist start present edge (x :: queue) taken) (hp : present x) (hx : x ∉ taken)
    (hnext : ∀ y ∈ next, edge x y) (hall : ∀ y, edge x y → present y → y ∈ next ∨ y ∈ taken ++ [x]) :
    Worklist start present edge (queue ++ next) (taken ++ [x]) := by
  have hreached : ReachedFrom start edge x := h.queued x List.mem_cons_self
  have hmove : ∀ y, y ∈ x :: queue ∨ y ∈ taken → y ∈ queue ++ next ∨ y ∈ taken ++ [x] := by
    intro y hy
    simp only [List.mem_cons, List.mem_append, List.not_mem_nil, or_false] at hy ⊢
    tauto
  refine ⟨fun y hy => ?_, fun y hy => ?_, fun y hy => ?_, ?_, fun y hs hp => hmove y (h.started y hs hp),
    fun z hz y he hp => ?_⟩
  · rcases List.mem_append.mp hy with hy | hy
    · exact h.queued y (List.mem_cons_of_mem x hy)
    · exact hreached.tail (hnext y hy)
  · rcases List.mem_append.mp hy with hy | hy
    · exact h.reached y hy
    · rwa [List.mem_singleton.mp hy]
  · rcases List.mem_append.mp hy with hy | hy
    · exact h.there y hy
    · rwa [List.mem_singleton.mp hy]
  · exact h.nodup.append (List.nodup_singleton x) (List.disjoint_singleton.mpr hx)
  · rcases List.mem_append.mp hz with hz | hz
    · exact hmove y (h.followed z hz y he hp)
    · rw [List.mem_singleton.mp hz] at he
      exact (hall y he hp).imp (List.mem_append_right queue) id

theorem mem_iff (h : Worklist start present edge [] taken) (hedge : ∀ x y, edge x y → present x) :
    x ∈ taken ↔ ReachedFrom start edge x ∧ present x := by
  constructor
  · intro hx
    exact ⟨h.reached x hx, h.there x hx⟩
  · rintro ⟨hreached, hp⟩
    have htaken : present x → x ∈ taken := by
      apply hreached.rec_on
      · intro y hs hp
        exact (h.started y hs hp).resolve_left List.not_mem_nil
      · intro y z _ he ih hp
        exact (h.followed y (ih (hedge y z he)) z he hp).resolve_left List.not_mem_nil
    exact htaken hp

end Worklist

end DigiWage.Lib
