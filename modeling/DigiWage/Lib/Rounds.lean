import Mathlib.Data.List.Basic
import Mathlib.Order.Defs.LinearOrder
import Mathlib.Order.Basic
import Mathlib.Order.Lattice

/-!
# Selection in rounds

From items in the order of their times one after the other is taken, each item at most once. A round that has a deadline takes the item
with the least key among those before the deadline, and the first item that is left where there is none.

* `scanRound` is the search of a round. It stops early: once it holds an item it does not look beyond the deadline.
* `Rounds` are the lists that rounds can make (`Rounds.nodup_map`, `Rounds.takes_of_getElem?`).
-/

namespace DigiWage.Lib

variable {A B T K : Type*} [LinearOrder T] [LinearOrder K] {time : A → T} {key : A → K} {skip : A → Bool} {stop : T}

/-! ## One round -/

/-- What a round takes of the items that are left. -/
structure Picks (time : A → T) (key : A → K) (left : A → Prop) (stop : T) (a : A) : Prop where
  mem : left a
  least : ∀ c, left c → time c ≤ stop → time a ≤ stop ∧ key a ≤ key c
  first : (∀ c, left c → stop < time c) → ∀ c, left c → time a ≤ time c

/-- The search through the items, with the best one so far. -/
def scanRound (time : A → T) (key : A → K) (skip : A → Bool) (stop : T) : Option A → List A → Option A
  | best, [] => best
  | none, a :: l => if skip a then scanRound time key skip stop none l else scanRound time key skip stop (some a) l
  | some b, a :: l =>
    if stop < time a then some b
    else if skip a then scanRound time key skip stop (some b) l
    else scanRound time key skip stop (some (if key a < key b then a else b)) l

theorem scanRound_some : ∀ (l : List A) (b : A), l.Pairwise (fun a c => time a ≤ time c) →
    ∃ a, scanRound time key skip stop (some b) l = some a ∧ (a = b ∨ a ∈ l ∧ skip a = false ∧ time a ≤ stop) ∧
      key a ≤ key b ∧ ∀ c ∈ l, skip c = false → time c ≤ stop → key a ≤ key c
  | [], b, _ => ⟨b, rfl, .inl rfl, le_rfl, by simp⟩
  | x :: l, b, h => by
    obtain ⟨hx, hl⟩ := List.pairwise_cons.mp h
    by_cases hstop : stop < time x
    · -- what follows is later still
      refine ⟨b, if_pos hstop, .inl rfl, le_rfl, fun c hc _ hcstop => ?_⟩
      rcases List.mem_cons.mp hc with rfl | hc
      · exact absurd hcstop (not_le.mpr hstop)
      · exact absurd ((hx c hc).trans hcstop) (not_le.mpr hstop)
    · cases hskip : skip x with
      | true =>
        obtain ⟨a, hfound, ha, hkey, hleast⟩ := scanRound_some l b hl
        refine ⟨a, ?_, ha.imp_right fun ha => ⟨List.mem_cons_of_mem x ha.1, ha.2⟩, hkey, fun c hc hcskip => ?_⟩
        · rw [scanRound, if_neg hstop, hskip, if_pos rfl, hfound]
        · rcases List.mem_cons.mp hc with rfl | hc
          · rw [hskip] at hcskip
            cases hcskip
          · exact hleast c hc hcskip
      | false =>
        obtain ⟨a, hfound, ha, hkey, hleast⟩ := scanRound_some l (if key x < key b then x else b) hl
        have hbetter : key a ≤ key x ∧ key a ≤ key b := by
          split at hkey
          · rename_i hlt
            exact ⟨hkey, hkey.trans hlt.le⟩
          · rename_i hlt
            exact ⟨hkey.trans (not_lt.mp hlt), hkey⟩
        refine ⟨a, ?_, ?_, hbetter.2, fun c hc hcskip hcstop => ?_⟩
        · rw [scanRound, if_neg hstop, hskip, if_neg Bool.false_ne_true, hfound]
        · rcases ha with ha | ha
          · split at ha
            · exact .inr ⟨by rw [ha]; exact List.mem_cons_self, by rw [ha]; exact hskip, by rw [ha]; exact not_lt.mp hstop⟩
            · exact .inl ha
          · exact .inr ⟨List.mem_cons_of_mem x ha.1, ha.2⟩
        · rcases List.mem_cons.mp hc with rfl | hc
          · exact hbetter.1
          · exact hleast c hc hcskip hcstop

theorem scanRound_picks : ∀ l : List A, l.Pairwise (fun a c => time a ≤ time c) → (∃ c ∈ l, skip c = false) →
    ∃ a, scanRound time key skip stop none l = some a ∧ Picks time key (fun c => c ∈ l ∧ skip c = false) stop a
  | [], _, h => by simp at h
  | x :: l, h, hleft => by
    obtain ⟨hx, hl⟩ := List.pairwise_cons.mp h
    cases hskip : skip x with
    | true =>
      have hiff : ∀ c, c ∈ x :: l ∧ skip c = false ↔ c ∈ l ∧ skip c = false := by
        intro c
        refine and_congr_left fun hc => ⟨fun hmem => (List.mem_cons.mp hmem).resolve_left ?_, List.mem_cons_of_mem x⟩
        rintro rfl
        rw [hskip] at hc
        cases hc
      obtain ⟨c, hc, hcskip⟩ := hleft
      obtain ⟨hc, -⟩ := (hiff c).mp ⟨hc, hcskip⟩
      obtain ⟨a, hfound, ha⟩ := scanRound_picks l hl ⟨c, hc, hcskip⟩
      refine ⟨a, by rw [scanRound, if_pos hskip, hfound], ?_⟩
      simp only [hiff]
      exact ha
    | false =>
      obtain ⟨a, hfound, ha, hkey, hleast⟩ := @scanRound_some A T K _ _ time key skip stop l x hl
      refine ⟨a, by rw [scanRound, hskip, if_neg Bool.false_ne_true, hfound], ?_, fun c hc hcstop => ?_, fun hnone c hc => ?_⟩
      · rcases ha with rfl | ha
        · exact ⟨List.mem_cons_self, hskip⟩
        · exact ⟨List.mem_cons_of_mem x ha.1, ha.2.1⟩
      · have hxc : time x ≤ time c ∧ key a ≤ key c := by
          rcases List.mem_cons.mp hc.1 with rfl | hmem
          · exact ⟨le_rfl, hkey⟩
          · exact ⟨hx c hmem, hleast c hmem hc.2 hcstop⟩
        rcases ha with rfl | ha
        · exact ⟨hxc.1.trans hcstop, hxc.2⟩
        · exact ⟨ha.2.2, hxc.2⟩
      · rcases ha with rfl | ha
        · rcases List.mem_cons.mp hc.1 with rfl | hmem
          · exact le_rfl
          · exact hx c hmem
        · exact absurd (hnone a ⟨List.mem_cons_of_mem x ha.1, ha.2.1⟩) (not_lt.mpr ha.2.2)

/-! ## All rounds -/

/-- The lists that are made when each round takes one item after those of the rounds before. -/
inductive Rounds (takes : List A → A → Prop) : List A → Prop
  | nil : Rounds takes []
  | snoc {l : List A} {a : A} (h : Rounds takes l) (ha : takes l a) : Rounds takes (l ++ [a])

variable {takes : List A → A → Prop} {l : List A}

theorem Rounds.nodup_map (h : Rounds takes l) {f : A → B} (hnew : ∀ l a, takes l a → f a ∉ l.map f) : (l.map f).Nodup := by
  induction h with
  | nil => exact List.nodup_nil
  | @snoc l a _ ha ih =>
    rw [List.map_append, List.nodup_append]
    refine ⟨ih, by simp, fun b hb c hc heq => ?_⟩
    rw [List.map_singleton, List.mem_singleton] at hc
    rw [heq, hc] at hb
    exact hnew l a ha hb

/-- What each of the rounds has taken. -/
theorem Rounds.takes_of_getElem? (h : Rounds takes l) : ∀ {i : Nat} {a : A}, l[i]? = some a → takes (l.take i) a := by
  induction h with
  | nil => simp
  | @snoc l b _ hb ih =>
    intro i a hi
    by_cases hlt : i < l.length
    · rw [List.getElem?_append_left hlt] at hi
      rw [List.take_append_of_le_length (Nat.le_of_lt hlt)]
      exact ih hi
    · have hlen := (List.getElem?_eq_some_iff.mp hi).1
      rw [List.length_append, List.length_singleton] at hlen
      obtain rfl : i = l.length := by omega
      rw [List.getElem?_append_right (Nat.le_refl _), Nat.sub_self, List.getElem?_cons_zero, Option.some.injEq] at hi
      rw [List.take_left, ← hi]
      exact hb

end DigiWage.Lib
