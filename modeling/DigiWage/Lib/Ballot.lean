import Mathlib.Data.List.AList
import Mathlib.Data.List.Perm.Subperm

/-!
# Ballots

A record of votes, each for an item and by a voter, under a key of its own.

* `votes`: the votes for an item. `votes_insert` and `votes_clean` say how they change when a vote is recorded and when the
  votes for some items are erased.
-/

namespace DigiWage.Lib

/-! ## Erasing from a map -/

section Erase

variable {K : Type*} {V : K → Type*} [DecidableEq K]

theorem kerase_eq_filter (a : K) : ∀ {l : List (Sigma V)}, l.NodupKeys → l.kerase a = l.filter fun e => decide (e.1 ≠ a)
  | [], _ => rfl
  | e :: l, hl => by
    obtain ⟨hnew, hl⟩ := List.nodupKeys_cons.mp hl
    by_cases heq : a = e.1
    · have hrest : l.filter (fun e => decide (e.1 ≠ a)) = l := by
        rw [List.filter_eq_self]
        intro e' he'
        have hkey := List.mem_keys_of_mem he'
        simp only [decide_eq_true_eq]
        rintro rfl
        rw [heq] at hkey
        exact hnew hkey
      rw [List.kerase_cons_eq heq, List.filter_cons_of_neg (by simp [heq]), hrest]
    · rw [List.kerase_cons_ne heq, List.filter_cons_of_pos (by simpa using fun h => heq h.symm), kerase_eq_filter a hl]

theorem entries_erase (a : K) (m : AList V) : (m.erase a).entries = m.entries.filter fun e => decide (e.1 ≠ a) :=
  kerase_eq_filter a m.nodupKeys

theorem entries_foldl_erase (old : Sigma V → Bool) : ∀ (l : List (Sigma V)) (m : AList V),
    (l.foldl (fun m e => if old e then m.erase e.1 else m) m).entries =
      m.entries.filter fun e => !l.any fun e' => old e' && decide (e.1 = e'.1)
  | [], m => by simp
  | e' :: l, m => by
    rw [List.foldl_cons, entries_foldl_erase old l]
    split
    · rename_i hold
      rw [entries_erase, List.filter_filter]
      refine List.filter_congr fun e _ => ?_
      simp [hold, Bool.and_comm]
    · rename_i hold
      refine List.filter_congr fun e _ => ?_
      simp [hold]

theorem entries_clean (old : Sigma V → Bool) (m : AList V) :
    (m.entries.foldl (fun m e => if old e then m.erase e.1 else m) m).entries = m.entries.filter fun e => !old e := by
  rw [entries_foldl_erase]
  refine List.filter_congr fun e he => ?_
  congr 1
  rw [Bool.eq_iff_iff]
  simp only [List.any_eq_true, Bool.and_eq_true, decide_eq_true_eq]
  constructor
  · rintro ⟨e', he', hold, hkey⟩
    rwa [m.nodupKeys.eq_of_fst_eq he he' hkey]
  · intro hold
    exact ⟨e, he, hold, rfl⟩

end Erase

/-! ## Votes -/

section Votes

variable {K V I W : Type*} [DecidableEq I] {item : V → I} {voter : V → W} {electors : I → List W}
  {m : AList fun _ : K => V} {k : K} {v : V} {i : I}

/-- The votes for an item. -/
def votes (item : V → I) (m : AList fun _ : K => V) (i : I) : List V :=
  (m.entries.filter fun e => decide (item e.2 = i)).map Sigma.snd

/-- Nobody votes twice for an item, and only its electors vote. -/
structure Fair (item : V → I) (voter : V → W) (electors : I → List W) (m : AList fun _ : K => V) : Prop where
  once : ∀ i, ((votes item m i).map voter).Nodup
  elected : ∀ i, ∀ v ∈ votes item m i, voter v ∈ electors i

theorem Fair.empty : Fair item voter electors (∅ : AList fun _ : K => V) :=
  ⟨fun _ => List.nodup_nil, fun _ _ hv => absurd hv List.not_mem_nil⟩

theorem Fair.length_le (h : Fair item voter electors m) (i : I) : (votes item m i).length ≤ (electors i).length := by
  rw [← List.length_map (f := voter)]
  refine (List.subperm_of_subset (h.once i) fun w hw => ?_).length_le
  obtain ⟨v, hv, rfl⟩ := List.mem_map.mp hw
  exact h.elected i v hv

variable [DecidableEq K]

theorem votes_insert (hnew : k ∉ m) (i : I) :
    votes item (m.insert k v) i = if item v = i then v :: votes item m i else votes item m i := by
  unfold votes
  rw [AList.entries_insert_of_notMem hnew, List.filter_cons]
  simp only [decide_eq_true_eq]
  split
  · rfl
  · rfl

theorem votes_clean (item : V → I) (m : AList fun _ : K => V) (old : I → Bool) (i : I) :
    votes item (m.entries.foldl (fun m e => if old (item e.2) then m.erase e.1 else m) m) i =
      if old i then [] else votes item m i := by
  unfold votes
  rw [entries_clean fun e : Sigma fun _ : K => V => old (item e.2), List.filter_filter]
  split
  · rename_i hold
    rw [List.map_eq_nil_iff, List.filter_eq_nil_iff]
    intro e _ he
    simp only [Bool.and_eq_true, decide_eq_true_eq, Bool.not_eq_true'] at he
    rw [he.1, hold] at he
    cases he.2
  · rename_i hold
    refine congrArg _ (List.filter_congr fun e _ => ?_)
    by_cases he : item e.2 = i
    · simp [he, hold]
    · simp [he]

theorem Fair.insert (h : Fair item voter electors m) (hnew : k ∉ m) (honce : voter v ∉ (votes item m (item v)).map voter)
    (helected : voter v ∈ electors (item v)) : Fair item voter electors (m.insert k v) := by
  refine ⟨fun i => ?_, fun i v' hv' => ?_⟩
  · rw [votes_insert hnew]
    split
    · rename_i heq
      subst heq
      rw [List.map_cons, List.nodup_cons]
      exact ⟨honce, h.once _⟩
    · exact h.once i
  · rw [votes_insert hnew] at hv'
    split at hv'
    · rename_i heq
      subst heq
      rcases List.mem_cons.mp hv' with rfl | hv'
      · exact helected
      · exact h.elected _ v' hv'
    · exact h.elected i v' hv'

theorem Fair.clean (h : Fair item voter electors m) (old : I → Bool) : Fair item voter electors
    (m.entries.foldl (fun m e => if old (item e.2) then m.erase e.1 else m) m) := by
  refine ⟨fun i => ?_, fun i v hv => ?_⟩
  · rw [votes_clean]
    split
    · exact List.nodup_nil
    · exact h.once i
  · rw [votes_clean] at hv
    split at hv
    · cases hv
    · exact h.elected i v hv

end Votes

end DigiWage.Lib
