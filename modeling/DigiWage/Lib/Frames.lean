import Mathlib.Data.List.Basic

/-!
# Framed streams

A stream of frames: a header of fixed length, which says how long the data is that follows it or is refused, and the data.

* `Framed.unique`: a stream has one reading.
* `Framed.cons_iff`: a stream that starts with a frame is read as this frame and the reading of the rest.
-/

namespace DigiWage.Lib

/-- What is left of a stream after its last frame: a part of a header, a header and a part of its data, or a header that is
refused. -/
inductive FrameTail (α : Type*) where
  | header (l : List α)
  | data (h l : List α)
  | refused (h : List α)

section Frames

variable {α : Type*} {k : Nat} {size : List α → Option Nat}

/-- The reading of a stream whose headers have length `k`. -/
inductive Framed (k : Nat) (size : List α → Option Nat) : List α → List (List α × List α) → FrameTail α → Prop where
  | header {l : List α} : l.length < k → Framed k size l [] (.header l)
  | data {h l : List α} {n : Nat} : h.length = k → size h = some n → l.length < n → Framed k size (h ++ l) [] (.data h l)
  | refused {h l : List α} : h.length = k → size h = none → Framed k size (h ++ l) [] (.refused h)
  | frame {h d l : List α} {fs : List (List α × List α)} {t : FrameTail α} : h.length = k → size h = some d.length →
      Framed k size l fs t → Framed k size (h ++ (d ++ l)) ((h, d) :: fs) t

theorem Framed.head {h l m : List α} {fs : List (List α × List α)} {t : FrameTail α} (hframed : Framed k size m fs t) (hm : m = h ++ l)
    (hh : h.length = k) :
    (size h = none ∧ fs = [] ∧ t = .refused h) ∨ (∃ n, size h = some n ∧ l.length < n ∧ fs = [] ∧ t = .data h l) ∨
      ∃ d l' fs', size h = some d.length ∧ l = d ++ l' ∧ fs = (h, d) :: fs' ∧ Framed k size l' fs' t := by
  cases hframed with
  | header hlt =>
    rw [hm, List.length_append] at hlt
    omega
  | @data h' l' n hk hsize hlt =>
    obtain ⟨rfl, rfl⟩ := List.append_inj hm (hk.trans hh.symm)
    exact .inr (.inl ⟨n, hsize, hlt, rfl, rfl⟩)
  | @refused h' l' hk hsize =>
    obtain ⟨rfl, rfl⟩ := List.append_inj hm (hk.trans hh.symm)
    exact .inl ⟨hsize, rfl, rfl⟩
  | @frame h' d l' fs' _ hk hsize hrest =>
    obtain ⟨rfl, rfl⟩ := List.append_inj hm (hk.trans hh.symm)
    exact .inr (.inr ⟨d, l', fs', hsize, rfl, rfl, hrest⟩)

theorem Framed.cons_iff {h d l : List α} {fs : List (List α × List α)} {t : FrameTail α} (hh : h.length = k)
    (hsize : size h = some d.length) :
    Framed k size (h ++ (d ++ l)) fs t ↔ ∃ fs', fs = (h, d) :: fs' ∧ Framed k size l fs' t := by
  constructor
  · intro hframed
    rcases hframed.head rfl hh with ⟨hnone, -⟩ | ⟨n, hn, hlt, -⟩ | ⟨d', l', fs', hd, hl, hfs, hrest⟩
    · rw [hsize] at hnone
      cases hnone
    · rw [hsize, Option.some.injEq] at hn
      rw [List.length_append] at hlt
      omega
    · rw [hsize, Option.some.injEq] at hd
      obtain ⟨rfl, rfl⟩ := List.append_inj hl hd
      exact ⟨fs', hfs, hrest⟩
  · rintro ⟨fs', rfl, hrest⟩
    exact .frame hh hsize hrest

theorem Framed.unique {m : List α} {fs gs : List (List α × List α)} {t u : FrameTail α} (hf : Framed k size m fs t)
    (hg : Framed k size m gs u) : fs = gs ∧ t = u := by
  induction hf generalizing gs with
  | header hlt =>
    cases hg with
    | header => exact ⟨rfl, rfl⟩
    | data hk =>
      rw [List.length_append] at hlt
      omega
    | refused hk =>
      rw [List.length_append] at hlt
      omega
    | frame hk =>
      rw [List.length_append] at hlt
      omega
  | data hk hsize hlt =>
    rcases hg.head rfl hk with ⟨hnone, -⟩ | ⟨n, -, -, rfl, rfl⟩ | ⟨d, l', fs', hd, rfl, -⟩
    · rw [hsize] at hnone
      cases hnone
    · exact ⟨rfl, rfl⟩
    · rw [hsize, Option.some.injEq] at hd
      rw [List.length_append] at hlt
      omega
  | refused hk hsize =>
    rcases hg.head rfl hk with ⟨-, rfl, rfl⟩ | ⟨n, hn, -⟩ | ⟨d, l', fs', hd, -⟩
    · exact ⟨rfl, rfl⟩
    · rw [hsize] at hn
      cases hn
    · rw [hsize] at hd
      cases hd
  | frame hk hsize _ ih =>
    obtain ⟨gs', rfl, hrest⟩ := (cons_iff hk hsize).mp hg
    obtain ⟨rfl, rfl⟩ := ih hrest
    exact ⟨rfl, rfl⟩

theorem Framed.append {fs gs : List (List α × List α)} {l : List α} {t : FrameTail α}
    (hfs : ∀ f ∈ fs, f.1.length = k ∧ size f.1 = some f.2.length) (hrest : Framed k size l gs t) :
    Framed k size ((fs.flatMap fun f => f.1 ++ f.2) ++ l) (fs ++ gs) t := by
  induction fs with
  | nil => exact hrest
  | cons f fs ih =>
    obtain ⟨hk, hsize⟩ := hfs f List.mem_cons_self
    rw [List.flatMap_cons, List.append_assoc, List.append_assoc]
    exact .frame hk hsize (ih fun g hg => hfs g (List.mem_cons_of_mem f hg))

end Frames

end DigiWage.Lib
