import DigiWage.Chain.Candidates

/-!
# `FindMostWorkChain`

From a consistent state `FindMostWorkChain` ends without a failed assertion. It marks and removes candidates with a
failed ancestor (`Purge`) and returns the greatest candidate that is left, whose branch is not failed
(`findMostWorkChain_spec`).
-/

namespace DigiWage

open Lib

namespace ChainState

variable {src : BlockSource} {s s' s'' : ChainState} {p : Ptr}

/-- From `s` to `s'` candidates were removed that are marked, and descendants of marked entries off the active chain were
marked. -/
structure Purge (s s' : ChainState) : Prop where
  frame : Frame s s'
  wf : s'.WellFormed
  chainActive : s'.chainActive = s.chainActive
  nCalls : s'.nCalls = s.nCalls
  cand : ∀ q ∈ s'.setBlockIndexCandidates, q ∈ s.setBlockIndexCandidates
  erased : ∀ q ∈ s.setBlockIndexCandidates, q ∉ s'.setBlockIndexCandidates → (s'.status q).failed = true
  failed : ∀ q, (s.status q).failed = true → (s'.status q).failed = true
  marked : ∀ q ∈ s.index.mapBlockIndex, (s'.status q).failed = true → (s.status q).failed = true ∨
    (s.chainActive.contains s.index q = false ∧ ∃ a, s.index.IsAnc a q ∧ (s.status a).failed = true)

namespace Purge

theorem refl (h : s.WellFormed) : Purge s s :=
  ⟨.refl s, h, rfl, rfl, fun _ hq => hq, fun _ hq hn => absurd hq hn, fun _ hq => hq, fun _ _ hq => Or.inl hq⟩

theorem trans (h₁ : Purge s s') (h₂ : Purge s' s'') : Purge s s'' := by
  refine ⟨h₁.frame.trans h₂.frame, h₂.wf, h₂.chainActive.trans h₁.chainActive, h₂.nCalls.trans h₁.nCalls,
    fun q hq => h₁.cand q (h₂.cand q hq), fun q hq hn => ?_, fun q hq => h₂.failed q (h₁.failed q hq),
    fun q hq hf => ?_⟩
  · by_cases hq' : q ∈ s'.setBlockIndexCandidates
    · exact h₂.erased q hq' hn
    · exact h₂.failed q (h₁.erased q hq hq')
  · rcases h₂.marked q (by rw [h₁.frame.index]; exact hq) hf with hf' | ⟨hc, a, ha, hfa⟩
    · exact h₁.marked q hq hf'
    · rw [h₁.frame.index, h₁.chainActive] at hc
      rw [h₁.frame.index] at ha
      rcases h₁.marked a (s.index.rooted.anc_mem hq ha) hfa with hfa' | ⟨-, b, hb, hfb⟩
      · exact Or.inr ⟨hc, a, ha, hfa'⟩
      · exact Or.inr ⟨hc, b, hb.trans ha, hfb⟩

theorem tip (h : Purge s s') : s'.tip = s.tip := by
  unfold ChainState.tip
  rw [h.chainActive]

theorem below (h : Purge s s') : s'.Below p ↔ s.Below p := by
  unfold Below
  rw [h.tip]
  simp only [h.frame.workLess]

theorem consistent (h : Purge s s') (hc : Consistent src s) : Consistent src s' := by
  refine hc.of_frame h.frame h.wf (fun a ha => ?_) (fun p hp => ?_)
  · rw [h.chainActive] at ha
    obtain ⟨hf, hl, hv⟩ := hc.chain a ha
    refine ⟨?_, hl, hv.imp_right fun hv => Nat.le_trans hv (h.frame.nValid a)⟩
    rw [Bool.eq_false_iff]
    intro hf'
    have ham : a ∈ s.index.mapBlockIndex := by
      rcases hc.wf.active with hcha | ⟨tip, htip, hcha⟩
      · rw [hcha] at ha
        cases ha
      · rw [hcha, CChain.contains_iff htip] at ha
        exact s.index.rooted.anc_mem htip ha
    rcases h.marked a ham hf' with hf' | ⟨hc', -⟩
    · rw [hf] at hf'
      cases hf'
    · rw [ha] at hc'
      cases hc'
  · rw [h.below]
    exact hc.sound p (h.cand p hp)

theorem unmarked (h : Purge s s') {q : Ptr} (hq : q ∈ s.index.mapBlockIndex)
    (hall : ∀ a, s.index.IsAnc a q → (s.status a).failed = false) : (s'.status q).failed = false := by
  rw [Bool.eq_false_iff]
  intro hf
  rcases h.marked q hq hf with hf | ⟨-, a, ha, hfa⟩
  · rw [hall q (.refl q)] at hf
    cases hf
  · rw [hall a ha] at hfa
    cases hfa

end Purge

theorem removeBranch_candidates (s : ChainState) (p test : Ptr) :
    (s.removeBranch p test).setBlockIndexCandidates =
      s.setBlockIndexCandidates.filter (· ∉ test :: (s.branch p).takeWhile (· ≠ test)) := by
  obtain ⟨b, hb⟩ := invalidChainFound_eq s p
  unfold removeBranch eraseCandidates
  cases (s.status test).failed with
  | true => simp only [if_true, hb]
  | false => rfl

theorem purge_removeBranch (hc : Consistent src s) (hp : p ∈ s.setBlockIndexCandidates) {test : Ptr}
    (ht : test ∈ s.branch p) (hf : (s.status test).failed = true) : Purge s (s.removeBranch p test) ∧
      p ∉ (s.removeBranch p test).setBlockIndexCandidates := by
  have hpm := hc.wf.candidates p hp
  obtain ⟨htp, htc⟩ := (mem_branch hc.wf.active hpm).mp ht
  have habove := fun q => @mem_above s p hc.wf.active hpm test q ht
  have hwf := (marks_removeBranch hc.wf hpm ht).wf
  obtain ⟨b, hb⟩ := invalidChainFound_eq s p
  have heq : s.removeBranch p test = ({ s with
      pindexBestInvalid := b
      status := fun q => if q ∈ (s.branch p).takeWhile (· ≠ test) then { s.status q with failedChild := true }
        else s.status q } : ChainState).eraseCandidates (test :: (s.branch p).takeWhile (· ≠ test)) := by
    unfold removeBranch
    simp only [hf, if_pos, hb]
  have hst : ∀ q, (s.removeBranch p test).status q =
      if q ∈ (s.branch p).takeWhile (· ≠ test) then { s.status q with failedChild := true } else s.status q := by
    intro q
    rw [heq]
    rfl
  have hmark : ∀ q ∈ (s.branch p).takeWhile (· ≠ test), ((s.removeBranch p test).status q).failed = true := by
    intro q hq
    rw [hst, if_pos hq]
    exact Bool.or_true _
  have hkeep : ∀ q, (s.status q).failed = true → ((s.removeBranch p test).status q).failed = true := by
    intro q hq
    by_cases hqa : q ∈ (s.branch p).takeWhile (· ≠ test)
    · exact hmark q hqa
    · rw [hst, if_neg hqa]
      exact hq
  have hcand : ∀ q, q ∈ (s.removeBranch p test).setBlockIndexCandidates ↔
      q ∈ s.setBlockIndexCandidates ∧ q ∉ test :: (s.branch p).takeWhile (· ≠ test) := by
    intro q
    rw [removeBranch_candidates, List.mem_filter, decide_eq_true_eq]
  refine ⟨⟨⟨by rw [heq]; rfl, by rw [heq]; rfl, fun q => ?_, fun q => ?_, fun q => ?_, fun q => ?_, fun q => ?_⟩, hwf,
    by rw [heq]; rfl, by rw [heq]; rfl, fun q hq => ((hcand q).mp hq).1, fun q hq hn => ?_, hkeep, fun q hq hfq => ?_⟩,
    fun hp' => ?_⟩
  · rw [hst]
    split <;> rfl
  · rw [hst]
    split <;> rfl
  · rw [hst]
    split <;> rfl
  · rw [hst]
    split <;> rfl
  · rw [hst]
    split <;> exact Nat.le_refl _
  · -- only the test block and what is above it are removed
    rw [hcand, not_and, not_not] at hn
    rcases List.mem_cons.mp (hn hq) with rfl | hqa
    · exact hkeep q hf
    · exact hmark q hqa
  · by_cases hqa : q ∈ (s.branch p).takeWhile (· ≠ test)
    · obtain ⟨-, htq, -⟩ := (habove q).mp hqa
      refine Or.inr ⟨?_, test, htq, hf⟩
      by_contra hcq
      rw [hc.wf.active.contains_anc htq (by simpa using hcq)] at htc
      cases htc
    · rw [hst, if_neg hqa] at hfq
      exact Or.inl hfq
  · obtain ⟨-, hn⟩ := (hcand p).mp hp'
    rw [List.mem_cons, not_or] at hn
    exact hn.2 ((habove p).mpr ⟨.refl p, htp, hn.1⟩)

/-- What `FindMostWorkChain` returns. -/
structure MostWork (s : ChainState) (m : Ptr) : Prop where
  mem : m ∈ s.setBlockIndexCandidates
  greatest : ∀ q ∈ s.setBlockIndexCandidates, s.workLess m q = false
  usable : ∀ a, s.index.IsAnc a m → (s.status a).failed = false

theorem findMostWorkLoop_spec : ∀ {fuel : Nat} {s : ChainState}, Consistent src s →
    s.setBlockIndexCandidates.length ≤ fuel → ∃ r s', findMostWorkLoop fuel s = some (r, s') ∧ Purge s s' ∧
      match r with
      | none => s'.setBlockIndexCandidates = []
      | some m => MostWork s' m
  | 0, s, hc, hlen => by
    refine ⟨none, s, rfl, .refl hc.wf, ?_⟩
    exact List.length_eq_zero_iff.mp (Nat.le_zero.mp hlen)
  | fuel + 1, s, hc, hlen => by
    unfold findMostWorkLoop
    rcases s.bestCandidate_spec with ⟨hnone, hempty⟩ | ⟨p, hbest, hp, hmax⟩
    · rw [hnone]
      exact ⟨none, s, rfl, .refl hc.wf, hempty⟩
    · rw [hbest]
      dsimp only
      have hpm := hc.wf.candidates p hp
      have hlinked : ∀ a, s.index.IsAnc a p → s.linked a = true := by
        intro a ha
        unfold linked
        rw [decide_eq_true (hc.linked_anc hpm (hc.sound p hp).1 ha).1, Bool.true_or]
      have hbranch : ∀ l : List Ptr, (∀ a ∈ l, a ∈ s.branch p) → l.all s.linked = true := by
        intro l hl
        rw [List.all_eq_true]
        intro a ha
        exact hlinked a ((mem_branch hc.wf.active hpm).mp (hl a ha)).1
      cases hfind : (s.branch p).find? s.unusable with
      | none =>
        rw [if_pos (hbranch (s.branch p) fun _ h => h)]
        refine ⟨some p, s, rfl, .refl hc.wf, hp, hmax, fun a ha => ?_⟩
        cases hca : s.chainActive.contains s.index a with
        | true => exact (hc.chain a hca).1
        | false =>
          have := List.find?_eq_none.mp hfind a ((mem_branch hc.wf.active hpm).mpr ⟨ha, hca⟩)
          simp only [unusable, Bool.or_eq_true, not_or, Bool.not_eq_true] at this
          exact this.1
      | some test =>
        have ht := List.mem_of_find?_eq_some hfind
        have htp := ((mem_branch hc.wf.active hpm).mp ht).1
        have hall : ((s.branch p).takeWhile (· ≠ test)).all s.linked = true :=
          hbranch _ fun a ha => (List.takeWhile_prefix _).subset ha
        dsimp only
        rw [if_pos (by rw [hall, hlinked test htp]; rfl)]
        -- a linked entry has data, so the block is failed
        have hf : (s.status test).failed = true := by
          have hun := List.find?_some hfind
          unfold unusable at hun
          rwa [(hc.linked_anc hpm (hc.sound p hp).1 htp).2, Bool.not_true, Bool.or_false] at hun
        obtain ⟨hpurge, hgone⟩ := purge_removeBranch hc hp ht hf
        have hshort : (s.removeBranch p test).setBlockIndexCandidates.length < s.setBlockIndexCandidates.length := by
          rw [removeBranch_candidates] at hgone ⊢
          refine List.length_filter_lt_length_iff_exists.mpr ⟨p, hp, fun h => hgone ?_⟩
          exact List.mem_filter.mpr ⟨hp, h⟩
        have hlen' : (s.removeBranch p test).setBlockIndexCandidates.length ≤ fuel := by omega
        obtain ⟨r, s', hr, hpurge', hres⟩ := findMostWorkLoop_spec (hpurge.consistent hc) hlen'
        exact ⟨r, s', hr, hpurge.trans hpurge', hres⟩

theorem findMostWorkChain_spec (hc : Consistent src s) : ∃ r s', findMostWorkChain s = some (r, s') ∧ Purge s s' ∧
    match r with
    | none => s'.setBlockIndexCandidates = []
    | some m => MostWork s' m := findMostWorkLoop_spec hc (Nat.le_refl _)

end ChainState

end DigiWage
