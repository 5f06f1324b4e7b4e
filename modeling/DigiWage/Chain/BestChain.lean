import DigiWage.Chain.Activate

/-!
# The chain that `ActivateBestChain` chooses

When `ConnectBlock` says the same of a block each time, a chain that was active once can be activated again. So the loop
has a reference to come back to (`Reference`): a chain of valid blocks, at least as good as any chain that is missing
from the candidates. It only gets better, and the best candidate is at least as good, so that at the end the tip has
the most work (`Exits.most_work`) and the candidates are complete (`Exits.complete`).
-/

namespace DigiWage

open Lib

/-- `ConnectBlock` says the same of a block each time, and there are no system errors. -/
structure Oracle.Steady (orc : Oracle) (valid : Ptr → Bool) : Prop where
  connect : ∀ n p, orc.connect n p = if valid p then .valid else .invalid
  disconnect : ∀ n p, orc.disconnect n p = true

namespace Oracle.Steady

variable {orc : Oracle} {valid : Ptr → Bool} {n : Nat} {p : Ptr}

theorem noErrors (h : orc.Steady valid) : orc.NoErrors := by
  refine ⟨fun n p => ?_, h.disconnect⟩
  rw [h.connect]
  cases valid p <;> simp

theorem of_valid (h : orc.Steady valid) (hv : orc.connect n p = .valid) : valid p = true := by
  by_contra hn
  rw [h.connect, if_neg hn] at hv
  cases hv

theorem of_invalid (h : orc.Steady valid) (hv : orc.connect n p = .invalid) : valid p = false := by
  by_contra hn
  rw [h.connect, if_pos (Bool.eq_true_of_not_eq_false hn)] at hv
  cases hv

end Oracle.Steady

namespace ChainState

variable {src : BlockSource} {s s' s₁ : ChainState} {p q m t : Ptr} {orc : Oracle} {valid : Ptr → Bool} {r : Option Ptr}

/-- The candidates are complete: linked entries that are not marked and do not compare below the tip are in the set. -/
def Complete (s : ChainState) : Prop := ∀ q ∈ s.index.mapBlockIndex, (s.status q).nChainTx ≠ 0 →
  (s.status q).failed = false → ¬ s.Below q → q ∈ s.setBlockIndexCandidates

/-- `r` is the end of a chain of valid blocks, and the candidates are complete above it. -/
structure Reference (valid : Ptr → Bool) (s : ChainState) (r : Option Ptr) : Prop where
  chain : ∀ a, s.chainActive.contains s.index a = true → valid a = true
  mem : ∀ t, r = some t → t ∈ s.index.mapBlockIndex ∧ (s.status t).nChainTx ≠ 0
  path : ∀ t, r = some t → ∀ a, s.index.IsAnc a t → valid a = true ∧ (s.status a).failed = false
  complete : ∀ q ∈ s.index.mapBlockIndex, (s.status q).nChainTx ≠ 0 → (s.status q).failed = false →
    (∀ t, r = some t → s.workLess q t = false) → q ∈ s.setBlockIndexCandidates

namespace Reference

theorem of_tip (hs : Consistent src s) (hc : s.Complete)
    (hv : ∀ a, s.chainActive.contains s.index a = true → valid a = true) : Reference valid s s.tip := by
  refine ⟨hv, fun t ht => ?_, fun t ht a ha => ?_, fun q hq hl hf hb => hc q hq hl hf ?_⟩
  · obtain ⟨hm, hl, -⟩ := hs.tip_linked ht
    exact ⟨hm, hl⟩
  · have hca := (hs.wf.active.contains_iff ht).mpr ha
    exact ⟨hv a hca, (hs.chain a hca).1⟩
  · rintro ⟨t, ht, hlt⟩
    rw [hb t ht] at hlt
    cases hlt

theorem cand (h : Reference valid s (some t)) : t ∈ s.setBlockIndexCandidates := by
  obtain ⟨hm, hl⟩ := h.mem t rfl
  refine h.complete t hm hl (h.path t rfl t (.refl t)).2 ?_
  rintro _ ⟨⟩
  exact workLess_irrefl s t

theorem purge (h : Reference valid s r) (hp : Purge s s') : Reference valid s' r := by
  refine ⟨?_, fun t ht => ?_, fun t ht a ha => ?_, fun q hq hl hf hb => ?_⟩
  · rw [hp.frame.index, hp.chainActive]
    exact h.chain
  · rw [hp.frame.index, hp.frame.nChainTx]
    exact h.mem t ht
  · rw [hp.frame.index] at ha
    have ham := s.index.rooted.anc_mem (h.mem t ht).1 ha
    exact ⟨(h.path t ht a ha).1, hp.unmarked ham fun b hb => (h.path t ht b (hb.trans ha)).2⟩
  · rw [hp.frame.index] at hq
    rw [hp.frame.nChainTx] at hl
    have hf' : (s.status q).failed = false := by
      rw [Bool.eq_false_iff]
      intro hf'
      rw [hp.failed q hf'] at hf
      cases hf
    by_contra hn
    rw [hp.erased q (h.complete q hq hl hf' fun t ht => by rw [← hp.frame.workLess]; exact hb t ht) hn] at hf
    cases hf

theorem lowered (h : Reference valid s r) (hl : Lowered src s s₁) : Reference valid s₁ r := by
  refine ⟨fun a ha => ?_, fun t ht => ?_, fun t ht a ha => ?_, fun q hq hlq hf hb => ?_⟩
  · rw [hl.index] at ha
    exact h.chain a (hl.chain a ha)
  · rw [hl.index, hl.status]
    exact h.mem t ht
  · rw [hl.index] at ha
    rw [hl.status]
    exact h.path t ht a ha
  · rw [hl.index] at hq
    rw [hl.status] at hlq hf
    rw [hl.cand]
    exact h.complete q hq hlq hf fun t ht => by rw [← hl.frame.workLess]; exact hb t ht

theorem climb (h : Reference valid s r) (horc : orc.Steady valid) (hc : Climb src orc s s') :
    ∃ r', Reference valid s' r' := by
  have hindex := hc.frame.index
  have hchain : ∀ a, s'.chainActive.contains s'.index a = true → valid a = true := by
    intro a ha
    rw [hindex] at ha
    rcases hc.verdict a ha with ha | ⟨n, hn⟩
    · exact h.chain a ha
    · exact horc.of_valid hn
  have hmem : ∀ q ∈ s'.index.mapBlockIndex, (s'.status q).nChainTx ≠ 0 → (s'.status q).failed = false →
      (∀ t, r = some t → s'.workLess q t = false) → ¬ s'.Below q → q ∈ s'.setBlockIndexCandidates := by
    intro q hq hl hf hb hn
    rw [hindex] at hq
    rw [hc.frame.nChainTx] at hl
    rw [hc.failed] at hf
    exact (hc.cand q).mpr ⟨h.complete q hq hl hf fun t ht => by rw [← hc.frame.workLess]; exact hb t ht, hn⟩
  by_cases hbetter : ∀ t', s'.tip = some t' → ∃ t, r = some t ∧ s'.workLess t t' = false
  · -- the new tip is not better
    refine ⟨r, hchain, fun t ht => ?_, fun t ht a ha => ?_, fun q hq hl hf hb => hmem q hq hl hf hb ?_⟩
    · rw [hindex, hc.frame.nChainTx]
      exact h.mem t ht
    · rw [hindex] at ha
      rw [hc.failed]
      exact h.path t ht a ha
    · rintro ⟨t', ht', hlt⟩
      obtain ⟨t, ht, htt⟩ := hbetter t' ht'
      rw [not_workLess_trans (hb t ht) htt] at hlt
      cases hlt
  · simp only [not_forall, not_exists, not_and, Bool.not_eq_false] at hbetter
    obtain ⟨t', ht', hbetter⟩ := hbetter
    obtain ⟨htm, htl, -⟩ := hc.cons.tip_linked ht'
    refine ⟨some t', hchain, ?_, ?_, fun q hq hl hf hb => hmem q hq hl hf (fun t ht => ?_) ?_⟩
    · rintro _ ⟨⟩
      exact ⟨htm, htl⟩
    · rintro _ ⟨⟩ a ha
      have hca := (hc.cons.wf.active.contains_iff ht').mpr ha
      exact ⟨hchain a hca, (hc.cons.chain a hca).1⟩
    · exact not_workLess_trans (hb t' rfl) (workLess_asymm (hbetter t ht))
    · rw [not_below_iff ht']
      exact hb t' rfl

theorem fails (h : Reference valid s r) (hf : Fails s s' p) (hp : valid p = false) : Reference valid s' r := by
  have hne : ∀ a, valid a = true → a ≠ p := by
    rintro a ha rfl
    rw [hp] at ha
    cases ha
  refine ⟨?_, fun t ht => ?_, fun t ht a ha => ?_, fun q hq hl hfq hb => ?_⟩
  · rw [hf.frame.index, hf.chainActive]
    exact h.chain
  · rw [hf.frame.index, hf.frame.nChainTx]
    exact h.mem t ht
  · rw [hf.frame.index] at ha
    obtain ⟨hv, hfa⟩ := h.path t ht a ha
    rw [hf.flags a (hne a hv)]
    exact ⟨hv, hfa⟩
  · have hqp : q ≠ p := by
      rintro rfl
      rw [hf.marked] at hfq
      cases hfq
    rw [hf.frame.index] at hq
    rw [hf.flags q hqp] at hl hfq
    exact (hf.cand q).mpr ⟨h.complete q hq hl hfq fun t ht => by rw [← hf.frame.workLess]; exact hb t ht, hqp⟩

theorem continues (h : ∃ r, Reference valid s r) (horc : orc.Steady valid) (hc : Continues src orc s s') :
    ∃ r, Reference valid s' r := by
  obtain ⟨r, h⟩ := h
  obtain ⟨s₀, s₁, m, hpurge, -, -, hlow, hend⟩ := hc
  have h₁ := (h.purge hpurge).lowered hlow
  cases hend with
  | better p climb tip anc work => exact h₁.climb horc climb
  | invalid s₂ p n climb parent anc unmarked verdict fails =>
    obtain ⟨r', h₂⟩ := h₁.climb horc climb
    exact ⟨r', h₂.fails fails (horc.of_invalid verdict)⟩

theorem not_workLess_most (h : Reference valid s r) (hm : MostWork s m) : ∀ t, r = some t → s.workLess m t = false := by
  rintro t rfl
  exact hm.greatest t h.cand

end Reference

/-- The tip has at least as much work as an entry. -/
def AtMostTip (s : ChainState) (q : Ptr) : Prop := ∃ tip, s.tip = some tip ∧ s.index.work q ≤ s.index.work tip

theorem Reference.work_le (h : Reference valid s r) (hm : MostWork s m) (hq : q ∈ s.index.mapBlockIndex)
    (hl : (s.status q).nChainTx ≠ 0) (hf : (s.status q).failed = false) : s.index.work q ≤ s.index.work m := by
  by_cases hb : ∀ t, r = some t → s.workLess q t = false
  · exact work_le_of_not_workLess (hm.greatest q (h.complete q hq hl hf hb))
  · simp only [not_forall, Bool.not_eq_false] at hb
    obtain ⟨t, ht, hlt⟩ := hb
    have h₁ := work_le_of_not_workLess (workLess_asymm hlt)
    have h₂ := work_le_of_not_workLess (h.not_workLess_most hm t ht)
    exact Nat.le_trans h₁ h₂

theorem Exits.most_work (h : Exits src orc s s') (hr : Reference valid s r) (hq : q ∈ s'.index.mapBlockIndex)
    (hl : (s'.status q).nChainTx ≠ 0) (hf : (s'.status q).failed = false) : s'.AtMostTip q := by
  cases h with
  | empty purge cand =>
    -- without a candidate there is no reference, and then the entry would be a candidate
    have h := hr.purge purge
    cases r with
    | some t =>
      have := h.cand
      rw [cand] at this
      cases this
    | none =>
      have := h.complete q hq hl hf (by rintro t ⟨⟩)
      rw [cand] at this
      cases this
  | stays m purge most tip => exact ⟨m, tip, (hr.purge purge).work_le most hq hl hf⟩
  | reaches s₀ s₁ m purge most lowered climb tip =>
    have hframe := lowered.frame.trans climb.frame
    rw [hframe.index] at hq
    rw [hframe.nChainTx] at hl
    rw [climb.failed, lowered.status] at hf
    refine ⟨m, tip, ?_⟩
    rw [hframe.index]
    exact (hr.purge purge).work_le most hq hl hf

theorem Exits.complete (h : Exits src orc s s') (hr : Reference valid s r) : s'.Complete := by
  intro q hq hl hf hb
  cases h with
  | empty purge cand =>
    have h := hr.purge purge
    cases r with
    | some t =>
      have := h.cand
      rw [cand] at this
      cases this
    | none => exact h.complete q hq hl hf (by rintro t ⟨⟩)
  | stays m purge most tip =>
    have h := hr.purge purge
    refine h.complete q hq hl hf fun t ht => ?_
    exact not_workLess_trans ((not_below_iff tip).mp hb) (h.not_workLess_most most t ht)
  | reaches s₀ s₁ m purge most lowered climb tip =>
    have h := hr.purge purge
    have hframe := lowered.frame.trans climb.frame
    have hqm := (not_below_iff tip).mp hb
    rw [hframe.index] at hq
    rw [hframe.nChainTx] at hl
    rw [climb.failed, lowered.status] at hf
    rw [hframe.workLess] at hqm
    refine (climb.cand q).mpr ⟨?_, hb⟩
    rw [lowered.cand]
    refine h.complete q hq hl hf fun t ht => ?_
    exact not_workLess_trans hqm (h.not_workLess_most most t ht)

theorem Exits.valid_chain (h : Exits src orc s s') (hr : Reference valid s r) (horc : orc.Steady valid) :
    ∀ a, s'.chainActive.contains s'.index a = true → valid a = true := by
  cases h with
  | empty purge cand => exact (hr.purge purge).chain
  | stays m purge most tip => exact (hr.purge purge).chain
  | reaches s₀ s₁ m purge most lowered climb tip =>
    obtain ⟨r', hr'⟩ := ((hr.purge purge).lowered lowered).climb horc climb
    exact hr'.chain

end ChainState

end DigiWage
