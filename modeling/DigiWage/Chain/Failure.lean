import DigiWage.Chain.Arrivals
import DigiWage.Chain.Active
import Mathlib.Data.List.Induction

/-!
# Failure marks

`BLOCK_FAILED_VALID` and `BLOCK_FAILED_CHILD` over runs of the operations on the chain state. The marks are consistent
(`FailInv`) when a marked entry is or descends from an entry with `BLOCK_FAILED_VALID`.

* Every operation but `ReconsiderBlock` marks only what descends from a marked entry or from one that it marks
  `BLOCK_FAILED_VALID` (`Marks`), and `Marks` composes.
* `failInv_reconsider`: `ReconsiderBlock` leaves the marks consistent exactly when no other branch got its mark from an
  ancestor that it clears.
-/

namespace DigiWage

open Lib

namespace ChainState

variable {s s' s'' : ChainState} {p : Ptr} {orc : Oracle}

/-- A marked entry is or descends from an entry with `BLOCK_FAILED_VALID`. -/
def FailInv (s : ChainState) : Prop :=
  ∀ p ∈ s.index.mapBlockIndex, (s.status p).failed = true → ∃ a, s.index.IsAnc a p ∧ (s.status a).failedValid = true

/-! ## What the operations mark -/

/-- From `s` to `s'` only what descends from a marked entry, or from one now marked `BLOCK_FAILED_VALID`, is marked. -/
structure Marks (s s' : ChainState) : Prop where
  index : s'.index = s.index
  wf : s'.WellFormed
  valid : ∀ p, (s.status p).failedValid = true → (s'.status p).failedValid = true
  failed : ∀ p ∈ s.index.mapBlockIndex, (s'.status p).failed = true →
    ∃ a, s.index.IsAnc a p ∧ ((s.status a).failed = true ∨ (s'.status a).failedValid = true)

theorem failed_of_failedValid {st : BlockStatus} (h : st.failedValid = true) : st.failed = true := by
  rw [BlockStatus.failed, h, Bool.true_or]

namespace Marks

theorem of_flags (hwf : s'.WellFormed) (hindex : s'.index = s.index)
    (h : ∀ p, (s'.status p).failedValid = (s.status p).failedValid ∧
      (s'.status p).failedChild = (s.status p).failedChild) : Marks s s' := by
  refine ⟨hindex, hwf, fun p hp => by rw [(h p).1]; exact hp, fun p _ hf => ⟨p, .refl p, Or.inl ?_⟩⟩
  rw [BlockStatus.failed, (h p).1, (h p).2] at hf
  exact hf

theorem trans (h₁ : Marks s s') (h₂ : Marks s' s'') : Marks s s'' := by
  refine ⟨h₂.index.trans h₁.index, h₂.wf, fun p hp => h₂.valid p (h₁.valid p hp), fun p hp hf => ?_⟩
  obtain ⟨a, ha, hm⟩ := h₂.failed p (by rw [h₁.index]; exact hp) hf
  rw [h₁.index] at ha
  rcases hm with hm | hm
  · obtain ⟨b, hb, hb'⟩ := h₁.failed a (s.index.rooted.anc_mem hp ha) hm
    refine ⟨b, hb.trans ha, ?_⟩
    rcases hb' with hb' | hb'
    · exact Or.inl hb'
    · exact Or.inr (h₂.valid b hb')
  · exact ⟨a, ha, Or.inr hm⟩

theorem failInv (h : Marks s s') (hi : s.FailInv) : s'.FailInv := by
  intro p hp hf
  rw [h.index] at hp ⊢
  obtain ⟨a, ha, hm⟩ := h.failed p hp hf
  rcases hm with hm | hm
  · obtain ⟨b, hb, hbv⟩ := hi a (s.index.rooted.anc_mem hp ha) hm
    exact ⟨b, hb.trans ha, h.valid b hbv⟩
  · exact ⟨a, ha, hm⟩

end Marks

namespace WellFormed

theorem of_frame (h : s.WellFormed) (hindex : s'.index = s.index) (hchain : s'.chainActive = s.chainActive)
    (hc : ∀ p ∈ s'.setBlockIndexCandidates, p ∈ s.setBlockIndexCandidates ∨ p ∈ s.index.mapBlockIndex)
    (hu : ∀ l ∈ s'.mapBlocksUnlinked, l ∈ s.mapBlocksUnlinked ∨ l.2 ∈ s.index.mapBlockIndex) : s'.WellFormed := by
  refine ⟨?_, fun p hp => ?_, fun l hl => ?_⟩
  · unfold Active
    rw [hindex, hchain]
    exact h.active
  · rw [hindex]
    rcases hc p hp with hp | hp
    · exact h.candidates p hp
    · exact hp
  · rw [hindex]
    rcases hu l hl with hl | hl
    · exact h.unlinked l hl
    · exact hl

theorem init : ChainState.init.WellFormed :=
  ⟨Or.inl rfl, fun p hp => by simp [ChainState.init] at hp, fun l hl => by simp [ChainState.init] at hl⟩

theorem added (h : s.WellFormed) {new : Ptr} {block : CBlockHeader} (ha : Added s new block s') : s'.WellFormed := by
  have hmem : ∀ p ∈ s.index.mapBlockIndex, p ∈ s'.index.mapBlockIndex := by
    intro p hp
    rw [ha.mapBlockIndex]
    exact List.mem_cons_of_mem _ hp
  refine ⟨?_, fun p hp => ?_, fun l hl => ?_⟩
  · rcases h.active with hc | ⟨p, hp, hc⟩
    · exact Or.inl (ha.chainActive.trans hc)
    · refine Or.inr ⟨p, hmem p hp, ?_⟩
      rw [ha.chainActive, hc, ha.index, CChain.ofTip_add hp]
  · rw [ha.setBlockIndexCandidates] at hp
    exact hmem p (h.candidates p hp)
  · rw [ha.mapBlocksUnlinked] at hl
    exact hmem l.2 (h.unlinked l hl)

theorem linkEntry (h : s.WellFormed) (hp : p ∈ s.index.mapBlockIndex) : (s.linkEntry p).WellFormed := by
  refine h.of_frame (linkEntry_index s p) (linkEntry_chainActive s p) (fun q hq => ?_) (fun l hl => ?_)
  · unfold ChainState.linkEntry at hq
    dsimp only at hq
    have hins : ∀ s₁ : ChainState, s₁.setBlockIndexCandidates = s.setBlockIndexCandidates →
        q ∈ (s₁.insertCandidate p).setBlockIndexCandidates →
        q ∈ s.setBlockIndexCandidates ∨ q ∈ s.index.mapBlockIndex := by
      intro s₁ hs₁ hq
      rcases mem_insertCandidate.mp hq with rfl | hq
      · exact Or.inr hp
      · exact Or.inl (hs₁ ▸ hq)
    split at hq
    · exact hins _ rfl hq
    · split at hq
      · exact Or.inl hq
      · exact hins _ rfl hq
  · rw [linkEntry_unlinked] at hl
    exact Or.inl (List.mem_filter.mp hl).1

theorem linkQueue (h : s.WellFormed) (hp : p ∈ s.index.mapBlockIndex) :
    (linkQueue (1 + s.mapBlocksUnlinked.length) [p] s).WellFormed := by
  have hstart : s.WellFormed ∧ ∀ q ∈ [p], q ∈ s.index.mapBlockIndex := ⟨h, by simpa using hp⟩
  refine (linkQueue_inv (I := fun s queue => s.WellFormed ∧ ∀ q ∈ queue, q ∈ s.index.mapBlockIndex)
    (fun s p queue hI => ?_) hstart (by simp)).1
  obtain ⟨hwf, hqueue⟩ := hI
  refine ⟨hwf.linkEntry (hqueue p List.mem_cons_self), fun q hq => ?_⟩
  rw [linkEntry_index]
  rcases List.mem_append.mp hq with hq | hq
  · exact hqueue q (List.mem_cons_of_mem _ hq)
  · exact hwf.unlinked (p, q) (mem_waiting.mp hq)

theorem received (h : s.WellFormed) (hp : p ∈ s.index.mapBlockIndex) (nVtx : Nat) :
    (s.receivedBlockTransactions p nVtx).WellFormed := by
  have h₁ : (s.setStatus p fun st => st.received nVtx).WellFormed :=
    h.of_frame rfl rfl (fun _ hq => Or.inl hq) (fun _ hl => Or.inl hl)
  unfold receivedBlockTransactions
  dsimp only
  split
  · exact h₁.linkQueue hp
  · split
    · exact h₁.linkQueue hp
    · split
      · refine h₁.of_frame rfl rfl (fun _ hq => Or.inl hq) (fun l hl => ?_)
        rcases List.mem_append.mp hl with hl | hl
        · exact Or.inl hl
        · rw [List.mem_singleton.mp hl]
          exact Or.inr hp
      · exact h₁

end WellFormed

/-! ## Each operation -/

theorem marks_received (h : s.WellFormed) (hp : p ∈ s.index.mapBlockIndex) (nVtx : Nat) :
    Marks s (s.receivedBlockTransactions p nVtx) := by
  obtain ⟨hidx, -, hself, hother⟩ := received_frame s p nVtx
  refine .of_flags (h.received hp nVtx) hidx fun q => ?_
  by_cases hq : q = p
  · subst hq
    obtain ⟨-, -, -, hv, hc, -⟩ := (s.status q).received_spec nVtx
    exact ⟨(congrArg BlockStatus.failedValid hself).trans hv, (congrArg BlockStatus.failedChild hself).trans hc⟩
  · have hv := congrArg BlockStatus.failedValid (hother q hq)
    have hc := congrArg BlockStatus.failedChild (hother q hq)
    exact ⟨hv, hc⟩

theorem marks_mark (f : BlockStatus → BlockStatus) (h : s'.WellFormed) (hindex : s'.index = s.index)
    (hstatus : s'.status = Function.update s.status p (f (s.status p)))
    (hf : (s.status p).failedValid = true → (f (s.status p)).failedValid = true)
    (ha : ∃ a, s.index.IsAnc a p ∧ (s'.status a).failedValid = true) : Marks s s' := by
  refine ⟨hindex, h, fun q hq => ?_, fun q _ hq => ?_⟩
  · rw [hstatus]
    by_cases hqp : q = p
    · subst hqp
      rw [Function.update_self]
      exact hf hq
    · rw [Function.update_of_ne hqp]
      exact hq
  · by_cases hqp : q = p
    · subst hqp
      obtain ⟨a, ha, hv⟩ := ha
      exact ⟨a, ha, Or.inr hv⟩
    · rw [hstatus, Function.update_of_ne hqp] at hq
      exact ⟨q, .refl q, Or.inl hq⟩

theorem marks_invalidBlockFound (h : s.WellFormed) (p : Ptr) : Marks s (s.invalidBlockFound p) := by
  unfold invalidBlockFound
  obtain ⟨b, hb⟩ := invalidChainFound_eq
    ((s.setStatus p fun st => { st with failedValid := true }).eraseCandidates [p]) p
  rw [hb]
  exact marks_mark (fun st => { st with failedValid := true }) (h.of_frame rfl rfl
    (fun q hq => Or.inl (mem_eraseCandidates.mp hq).1) (fun _ hl => Or.inl hl)) rfl rfl (fun _ => rfl)
    ⟨p, .refl p, by simp [setStatus, eraseCandidates]⟩

theorem marks_removeBranch (h : s.WellFormed) (hp : p ∈ s.index.mapBlockIndex) {test : Ptr} (ht : test ∈ s.branch p) :
    Marks s (s.removeBranch p test) := by
  have habove := fun q => @mem_above s p h.active hp test q ht
  unfold removeBranch
  dsimp only
  set above := (s.branch p).takeWhile (· ≠ test) with hdef
  obtain ⟨b, hb⟩ := invalidChainFound_eq s p
  cases hfail : (s.status test).failed with
  | true =>
    rw [if_pos rfl, if_pos rfl, hb]
    refine ⟨rfl, h.of_frame rfl rfl (fun q hq => Or.inl (mem_eraseCandidates.mp hq).1) (fun _ hl => Or.inl hl), ?_, ?_⟩
    · intro q hq
      show (if q ∈ above then { s.status q with failedChild := true } else s.status q).failedValid = true
      split <;> exact hq
    · intro q _ hq
      by_cases hqa : q ∈ above
      · exact ⟨test, ((habove q).mp hqa).2.1, Or.inl hfail⟩
      · change (if q ∈ above then { s.status q with failedChild := true } else s.status q).failed = true at hq
        rw [if_neg hqa] at hq
        exact ⟨q, .refl q, Or.inl hq⟩
  | false =>
    refine .of_flags (h.of_frame rfl rfl (fun q hq => Or.inl (mem_eraseCandidates.mp hq).1) (fun l hl => ?_)) rfl
      fun q => ⟨rfl, rfl⟩
    rcases List.mem_append.mp hl with hl | hl
    · exact Or.inl hl
    · obtain ⟨q, hq, hl⟩ := List.mem_filterMap.mp hl
      obtain ⟨r, -, rfl⟩ := Option.map_eq_some_iff.mp hl
      exact Or.inr (s.index.rooted.anc_mem hp ((habove q).mp hq).1)

theorem mem_of_bestCandidate (h : s.bestCandidate = some p) : p ∈ s.setBlockIndexCandidates := by
  unfold bestCandidate at h
  refine List.foldlRecOn s.setBlockIndexCandidates _
    (motive := fun best => ∀ p, best = some p → p ∈ s.setBlockIndexCandidates) ?_ ?_ p h
  · intro p hp
    cases hp
  · intro best ih q hq p hp
    cases best with
    | none =>
      cases hp
      exact hq
    | some r =>
      simp only at hp
      split at hp
      · cases hp
        exact hq
      · exact ih p hp

theorem marks_findMostWorkLoop : ∀ {fuel : Nat} {s s' : ChainState} {r : Option Ptr}, s.WellFormed →
    findMostWorkLoop fuel s = some (r, s') → Marks s s'
  | 0, s, s', r, h, heq => by
    cases heq
    exact .of_flags h rfl fun _ => ⟨rfl, rfl⟩
  | fuel + 1, s, s', r, h, heq => by
    unfold findMostWorkLoop at heq
    split at heq
    · cases heq
      exact .of_flags h rfl fun _ => ⟨rfl, rfl⟩
    · rename_i pindexNew hbest
      have hnew := h.candidates pindexNew (mem_of_bestCandidate hbest)
      split at heq
      · split at heq
        · cases heq
          exact .of_flags h rfl fun _ => ⟨rfl, rfl⟩
        · cases heq
      · rename_i pindexTest hfind
        split at heq
        · have hm := marks_removeBranch h hnew (List.mem_of_find?_eq_some hfind)
          exact hm.trans (marks_findMostWorkLoop hm.wf heq)
        · cases heq

theorem marks_disconnectTip (h : s.WellFormed) {ok : Bool} (heq : s.disconnectTip orc = some (ok, s')) :
    Marks s s' := by
  obtain ⟨p, -, hp, -, ⟨-, rfl⟩ | ⟨-, q, hq, rfl⟩⟩ := disconnectTip_cases h.active heq
  · exact .of_flags (h.of_frame rfl rfl (fun _ hq => Or.inl hq) (fun _ hl => Or.inl hl)) rfl fun _ => ⟨rfl, rfl⟩
  · exact .of_flags ⟨Or.inr ⟨q, s.index.rooted.mem hp hq, rfl⟩, h.candidates, h.unlinked⟩ rfl fun _ => ⟨rfl, rfl⟩

theorem marks_connectTip (h : s.WellFormed) (hp : p ∈ s.index.mapBlockIndex) {r : ConnectResult}
    (heq : s.connectTip orc p = some (r, s')) : Marks s s' := by
  have hcall : ({ s with nCalls := s.nCalls + 1 } : ChainState).WellFormed :=
    h.of_frame rfl rfl (fun _ hq => Or.inl hq) (fun _ hl => Or.inl hl)
  obtain ⟨-, -, ⟨-, rfl⟩ | ⟨-, rfl⟩ | ⟨-, rfl⟩⟩ := connectTip_cases h.active hp heq
  · refine .of_flags ⟨Or.inr ⟨p, hp, rfl⟩, h.candidates, h.unlinked⟩ rfl fun q => ?_
    obtain ⟨hv, hc, -⟩ := s.connectedStatus_spec p
    unfold connected
    by_cases hq : q = p
    · subst hq
      simp only [Function.update_self]
      exact ⟨hv, hc⟩
    · simp only [Function.update_of_ne hq]
      trivial
  · have hm : Marks s { s with nCalls := s.nCalls + 1 } := .of_flags hcall rfl fun _ => ⟨rfl, rfl⟩
    exact hm.trans (marks_invalidBlockFound hcall p)
  · exact .of_flags hcall rfl fun _ => ⟨rfl, rfl⟩

theorem marks_invalidateLoop : ∀ {fuel : Nat} {s s' : ChainState} {ok : Bool}, s.WellFormed →
    (s.status p).failedValid = true → invalidateLoop orc p fuel s = some (ok, s') → Marks s s'
  | 0, s, s', ok, h, _, heq => by
    cases heq
    exact .of_flags h rfl fun _ => ⟨rfl, rfl⟩
  | fuel + 1, s, s', ok, h, hv, heq => by
    unfold invalidateLoop at heq
    split at heq
    · rename_i hcont
      split at heq
      · cases heq
      · rename_i tip htip
        have hanc := (h.active.contains_iff htip).mp hcont
        have hm : Marks s ((s.setStatus tip fun st => { st with failedChild := true }).eraseCandidates [tip]) := by
          refine marks_mark (fun st => { st with failedChild := true }) (h.of_frame rfl rfl
            (fun q hq => Or.inl (mem_eraseCandidates.mp hq).1) (fun _ hl => Or.inl hl)) rfl rfl id ⟨p, hanc, ?_⟩
          by_cases hpt : p = tip
          · subst hpt
            simpa [setStatus, eraseCandidates] using hv
          · simpa [setStatus, eraseCandidates, Function.update_of_ne hpt] using hv
        split at heq
        · cases heq
        · rename_i s₁ hdis
          cases heq
          exact hm.trans (marks_disconnectTip hm.wf hdis)
        · rename_i s₁ hdis
          have hm₁ := hm.trans (marks_disconnectTip hm.wf hdis)
          exact hm₁.trans (marks_invalidateLoop hm₁.wf (hm₁.valid p hv) heq)
    · cases heq
      exact .of_flags h rfl fun _ => ⟨rfl, rfl⟩

theorem marks_invalidateBlock (h : s.WellFormed) {ok : Bool} (heq : s.invalidateBlock orc p = some (ok, s')) :
    Marks s s' := by
  have hm : Marks s ((s.setStatus p fun st => { st with failedValid := true }).eraseCandidates [p]) :=
    marks_mark (fun st => { st with failedValid := true }) (h.of_frame rfl rfl
      (fun q hq => Or.inl (mem_eraseCandidates.mp hq).1) (fun _ hl => Or.inl hl)) rfl rfl (fun _ => rfl)
      ⟨p, .refl p, by simp [setStatus, eraseCandidates]⟩
  have hv : (((s.setStatus p fun st => { st with failedValid := true }).eraseCandidates [p]).status p).failedValid =
      true := by
    simp [setStatus, eraseCandidates]
  unfold invalidateBlock at heq
  dsimp only at heq
  split at heq
  · cases heq
  · rename_i s₂ hloop
    cases heq
    exact hm.trans (marks_invalidateLoop hm.wf hv hloop)
  · rename_i s₂ hloop
    have hm₂ := hm.trans (marks_invalidateLoop hm.wf hv hloop)
    split at heq
    · cases heq
    · rename_i tip htip
      cases heq
      obtain ⟨c, hc, hmem⟩ := foldl_insertCandidate (s₂.readded tip) s₂
      obtain ⟨b, hb⟩ := invalidChainFound_eq ((s₂.readded tip).foldl insertCandidate s₂) p
      rw [hb, hc]
      refine hm₂.trans (.of_flags (hm₂.wf.of_frame rfl rfl (fun q hq => ?_) (fun _ hl => Or.inl hl)) rfl
        fun _ => ⟨rfl, rfl⟩)
      rcases (hmem q).mp hq with hq | hq
      · exact Or.inr (List.mem_filter.mp hq).1
      · exact Or.inl hq

/-! ## `ReconsiderBlock` -/

theorem mem_reconsidered {q : Ptr} : q ∈ s.reconsidered p ↔
    q ∈ s.index.mapBlockIndex ∧ (s.status q).isValid BLOCK_VALID_TRANSACTIONS = false ∧ s.index.IsAnc p q := by
  unfold reconsidered
  rw [List.mem_filter, Bool.and_eq_true, beq_iff_eq, Bool.not_eq_true']
  refine and_congr_right fun hq => and_congr_right fun _ => ?_
  rw [BlockIndex.getAncestor_some_iff hq]
  simp

theorem reconsider_frame (h : s.reconsiderBlock p = some s') : s'.index = s.index ∧ s'.chainActive = s.chainActive ∧
    s'.mapBlocksUnlinked = s.mapBlocksUnlinked ∧
    (∀ q, s'.status q = if q ∈ s.reconsidered p ∨ q ∈ s.index.path p then (s.status q).clearFailed else s.status q) ∧
    ∀ q ∈ s'.setBlockIndexCandidates, q ∈ s.setBlockIndexCandidates ∨ q ∈ s.reconsidered p := by
  have hclear : ∀ q, (if q ∈ s.index.path p then
        (if q ∈ s.reconsidered p then (s.status q).clearFailed else s.status q).clearFailed
      else if q ∈ s.reconsidered p then (s.status q).clearFailed else s.status q) =
      if q ∈ s.reconsidered p ∨ q ∈ s.index.path p then (s.status q).clearFailed else s.status q := by
    intro q
    by_cases h₁ : q ∈ s.reconsidered p <;> by_cases h₂ : q ∈ s.index.path p <;> simp [h₁, h₂, BlockStatus.clearFailed]
  unfold reconsiderBlock at h
  split at h
  · split at h
    · cases h
      exact ⟨rfl, rfl, rfl, hclear, fun q hq => Or.inl hq⟩
    · cases h
  · rename_i tip htip
    cases h
    obtain ⟨c, hc, hmem⟩ :=
      foldl_insertCandidate ((s.compared p).filter ((s.cleared p).workLess tip)) (s.cleared p)
    rw [hc]
    refine ⟨rfl, rfl, rfl, hclear, fun q hq => ?_⟩
    rcases (hmem q).mp hq with hq | hq
    · exact Or.inr (List.mem_filter.mp (List.mem_filter.mp hq).1).1
    · exact Or.inl hq

theorem wellFormed_reconsider (h : s.WellFormed) (heq : s.reconsiderBlock p = some s') : s'.WellFormed := by
  obtain ⟨hidx, hchain, hunl, -, hcand⟩ := reconsider_frame heq
  refine h.of_frame hidx hchain (fun q hq => ?_) (fun l hl => Or.inl (hunl ▸ hl))
  rcases hcand q hq with hq | hq
  · exact Or.inl hq
  · exact Or.inr (mem_reconsidered.mp hq).1

theorem reconsider_flags (hp : p ∈ s.index.mapBlockIndex) (heq : s.reconsiderBlock p = some s') {q : Ptr}
    (hq : q ∈ s.index.mapBlockIndex) :
    ((s'.status q).failed = true ↔ (s.status q).failed = true ∧ ¬ s.index.IsAnc p q ∧ ¬ s.index.IsAnc q p) ∧
    ((s'.status q).failedValid = true ↔
      (s.status q).failedValid = true ∧ ¬ s.index.IsAnc p q ∧ ¬ s.index.IsAnc q p) := by
  obtain ⟨-, -, -, hstatus, -⟩ := reconsider_frame heq
  rw [hstatus]
  by_cases hqp : s.index.IsAnc q p
  · rw [if_pos (Or.inr ((BlockIndex.mem_path hp).mpr hqp))]
    simp [hqp, BlockStatus.clearFailed, BlockStatus.failed]
  · by_cases hpq : s.index.IsAnc p q
    · by_cases hf : (s.status q).failed = true
      · have hinvalid : (s.status q).isValid BLOCK_VALID_TRANSACTIONS = false := by
          rw [BlockStatus.isValid, hf]
          rfl
        rw [if_pos (Or.inl (mem_reconsidered.mpr ⟨hq, hinvalid, hpq⟩))]
        simp [hpq, BlockStatus.clearFailed, BlockStatus.failed]
      · -- nothing to clear
        have hv : (s.status q).failedValid ≠ true := fun hv => hf (failed_of_failedValid hv)
        split
        · simp [hpq, BlockStatus.clearFailed, BlockStatus.failed]
        · simp [hf, hv]
    · rw [if_neg (by rw [mem_reconsidered, BlockIndex.mem_path hp]; tauto)]
      simp [hpq, hqp]

/-- Every marked entry on a branch of its own has an entry with `BLOCK_FAILED_VALID` that `ReconsiderBlock` leaves. -/
def ReconsiderOk (s : ChainState) (p : Ptr) : Prop :=
  ∀ q ∈ s.index.mapBlockIndex, (s.status q).failed = true → ¬ s.index.IsAnc p q → ¬ s.index.IsAnc q p →
    ∃ a, s.index.IsAnc a q ∧ (s.status a).failedValid = true ∧ ¬ s.index.IsAnc a p

theorem failInv_reconsider (hp : p ∈ s.index.mapBlockIndex) (heq : s.reconsiderBlock p = some s') :
    s'.FailInv ↔ s.ReconsiderOk p := by
  unfold FailInv ReconsiderOk
  rw [(reconsider_frame heq).1]
  refine forall₂_congr fun q hq => ?_
  rw [(reconsider_flags hp heq hq).1]
  constructor
  · intro h hf hpq hqp
    obtain ⟨a, ha, hv⟩ := h ⟨hf, hpq, hqp⟩
    obtain ⟨hv, -, hap⟩ := (reconsider_flags hp heq (s.index.rooted.anc_mem hq ha)).2.mp hv
    exact ⟨a, ha, hv, hap⟩
  · rintro h ⟨hf, hpq, hqp⟩
    obtain ⟨a, ha, hv, hap⟩ := h hf hpq hqp
    exact ⟨a, ha, (reconsider_flags hp heq (s.index.rooted.anc_mem hq ha)).2.mpr
      ⟨hv, fun hpa => hpq (hpa.trans ha), hap⟩⟩

end ChainState

/-! ## Runs -/

/-- The operations on the chain state. -/
inductive ChainOp where
  | addToBlockIndex (new : Ptr) (block : CBlockHeader)
  | receivedBlockTransactions (p : Ptr) (nVtx : Nat)
  | invalidBlockFound (p : Ptr)
  | findMostWorkChain
  | connectTip (orc : Oracle) (p : Ptr)
  | disconnectTip (orc : Oracle)
  | invalidateBlock (orc : Oracle) (p : Ptr)
  | reconsiderBlock (p : Ptr)

/-- An operation on an entry of the index; a new entry gets a free address. -/
def ChainOp.step (s : ChainState) : ChainOp → Option ChainState
  | addToBlockIndex new block => if new ∈ s.index.mapBlockIndex then none else some (s.addToBlockIndex new block).2
  | receivedBlockTransactions p nVtx =>
    if p ∈ s.index.mapBlockIndex then some (s.receivedBlockTransactions p nVtx) else none
  | invalidBlockFound p => if p ∈ s.index.mapBlockIndex then some (s.invalidBlockFound p) else none
  | findMostWorkChain => (DigiWage.findMostWorkChain s).map Prod.snd
  | connectTip orc p => if p ∈ s.index.mapBlockIndex then (s.connectTip orc p).map Prod.snd else none
  | disconnectTip orc => (s.disconnectTip orc).map Prod.snd
  | invalidateBlock orc p => if p ∈ s.index.mapBlockIndex then (s.invalidateBlock orc p).map Prod.snd else none
  | reconsiderBlock p => if p ∈ s.index.mapBlockIndex then s.reconsiderBlock p else none

/-- A run from the state of a node without blocks. -/
def runChainOps (ops : List ChainOp) : Option ChainState := ops.foldlM ChainOp.step ChainState.init

namespace ChainState

variable {s s' : ChainState} {op : ChainOp}

theorem FailInv.added (h : s.FailInv) {new : Ptr} {block : CBlockHeader} (ha : Added s new block s') : s'.FailInv := by
  intro p hp hf
  rw [ha.mapBlockIndex] at hp
  rcases List.mem_cons.mp hp with rfl | hp
  · rw [ha.status_new] at hf
    cases hf
  · rw [ha.status_old p hp] at hf
    obtain ⟨a, hanc, hv⟩ := h p hp hf
    refine ⟨a, (ha.isAnc hp).mpr hanc, ?_⟩
    rw [ha.status_old a (s.index.rooted.anc_mem hp hanc)]
    exact hv

theorem step_cases (h : s.WellFormed) (heq : op.step s = some s') : Marks s s' ∨
    (∃ new block, Added s new block s') ∨
    ∃ p, op = .reconsiderBlock p ∧ p ∈ s.index.mapBlockIndex ∧ s.reconsiderBlock p = some s' := by
  cases op with
  | addToBlockIndex new block =>
    simp only [ChainOp.step, Option.ite_none_left_eq_some, Option.some.injEq] at heq
    obtain ⟨hnew, rfl⟩ := heq
    cases hfind : s.index.find block.hash with
    | none => exact Or.inr (Or.inl ⟨new, block, addToBlockIndex_added hnew hfind⟩)
    | some p =>
      refine Or.inl (.of_flags ?_ ?_ fun q => ?_) <;> unfold addToBlockIndex <;> rw [hfind]
      · exact h
      · exact ⟨rfl, rfl⟩
  | receivedBlockTransactions p nVtx =>
    simp only [ChainOp.step, Option.ite_none_right_eq_some, Option.some.injEq] at heq
    obtain ⟨hp, rfl⟩ := heq
    exact Or.inl (marks_received h hp nVtx)
  | invalidBlockFound p =>
    simp only [ChainOp.step, Option.ite_none_right_eq_some, Option.some.injEq] at heq
    obtain ⟨-, rfl⟩ := heq
    exact Or.inl (marks_invalidBlockFound h p)
  | findMostWorkChain =>
    obtain ⟨⟨r, s₁⟩, hr, rfl⟩ := Option.map_eq_some_iff.mp heq
    exact Or.inl (marks_findMostWorkLoop h hr)
  | connectTip orc p =>
    simp only [ChainOp.step, Option.ite_none_right_eq_some, Option.map_eq_some_iff] at heq
    obtain ⟨hp, ⟨r, s₁⟩, hr, rfl⟩ := heq
    exact Or.inl (marks_connectTip h hp hr)
  | disconnectTip orc =>
    obtain ⟨⟨r, s₁⟩, hr, rfl⟩ := Option.map_eq_some_iff.mp heq
    exact Or.inl (marks_disconnectTip h hr)
  | invalidateBlock orc p =>
    simp only [ChainOp.step, Option.ite_none_right_eq_some, Option.map_eq_some_iff] at heq
    obtain ⟨-, ⟨r, s₁⟩, hr, rfl⟩ := heq
    exact Or.inl (marks_invalidateBlock h hr)
  | reconsiderBlock p =>
    simp only [ChainOp.step, Option.ite_none_right_eq_some] at heq
    exact Or.inr (Or.inr ⟨p, rfl, heq.1, heq.2⟩)

theorem step_wellFormed (h : s.WellFormed) (heq : op.step s = some s') : s'.WellFormed := by
  rcases step_cases h heq with hm | ⟨new, block, ha⟩ | ⟨p, -, -, hr⟩
  · exact hm.wf
  · exact h.added ha
  · exact wellFormed_reconsider h hr

end ChainState

open ChainState

theorem runChainOps_append {pre : List ChainOp} {op : ChainOp} {s' : ChainState} :
    runChainOps (pre ++ [op]) = some s' ↔ ∃ s, runChainOps pre = some s ∧ op.step s = some s' := by
  unfold runChainOps
  rw [List.foldlM_append]
  simp [Option.bind_eq_some_iff]

theorem run_wellFormed : ∀ {ops : List ChainOp} {s : ChainState}, runChainOps ops = some s → s.WellFormed := by
  intro ops
  induction ops using List.reverseRecOn with
  | nil =>
    rintro s ⟨⟩
    exact .init
  | append_singleton ops op ih =>
    intro s h
    obtain ⟨s₀, h₀, hstep⟩ := runChainOps_append.mp h
    exact step_wellFormed (ih h₀) hstep

/-- **Failure marks.** In every state of a run the marks are consistent exactly when each call of `ReconsiderBlock` meets
`ReconsiderOk`. -/
theorem failInv_run_iff (ops : List ChainOp) :
    (∀ pre s, pre <+: ops → runChainOps pre = some s → s.FailInv) ↔
    ∀ pre p s s', pre ++ [.reconsiderBlock p] <+: ops → runChainOps pre = some s →
      runChainOps (pre ++ [.reconsiderBlock p]) = some s' → s.ReconsiderOk p := by
  constructor
  · intro hall pre p s s' hpre hs hs'
    obtain ⟨s₀, h₀, hstep⟩ := runChainOps_append.mp hs'
    rw [hs] at h₀
    cases h₀
    simp only [ChainOp.step, Option.ite_none_right_eq_some] at hstep
    exact (failInv_reconsider hstep.1 hstep.2).mp (hall _ s' hpre hs')
  · intro hok pre
    induction pre using List.reverseRecOn with
    | nil =>
      rintro s - ⟨⟩ p hp
      simp [ChainState.init, BlockIndex.empty] at hp
    | append_singleton pre op ih =>
      intro s' hpre hs'
      obtain ⟨s, hs, hstep⟩ := runChainOps_append.mp hs'
      have hinv := ih s ((List.prefix_append pre [op]).trans hpre) hs
      rcases step_cases (run_wellFormed hs) hstep with hm | ⟨new, block, ha⟩ | ⟨p, rfl, hp, hr⟩
      · exact hm.failInv hinv
      · exact hinv.added ha
      · exact (failInv_reconsider hp hr).mpr (hok pre p s s' hpre hs hs')

/-! ## A mark without a reason -/

/-- `ConnectBlock` and `DisconnectBlock` succeed. -/
def Oracle.succeeds : Oracle := ⟨fun _ _ => .valid, fun _ _ => true⟩

/-- A genesis block, a child and two grandchildren; the first grandchild becomes the tip. Then the child is invalidated
and the second grandchild reconsidered. -/
def reconsiderSibling : List ChainOp :=
  [.addToBlockIndex 0 ⟨1, 7, 0, 0, 0, 0x207fffff, 0⟩, .addToBlockIndex 1 ⟨2, 7, 1, 0, 0, 0x207fffff, 0⟩,
    .addToBlockIndex 2 ⟨3, 7, 2, 0, 0, 0x207fffff, 0⟩, .addToBlockIndex 3 ⟨4, 7, 2, 0, 0, 0x207fffff, 0⟩,
    .receivedBlockTransactions 0 1, .receivedBlockTransactions 1 2, .receivedBlockTransactions 2 2,
    .receivedBlockTransactions 3 2, .connectTip .succeeds 0, .connectTip .succeeds 1, .connectTip .succeeds 2,
    .invalidateBlock .succeeds 1, .reconsiderBlock 3]

theorem reconsiderSibling_isSome : (runChainOps reconsiderSibling).isSome := by decide

/-- The first grandchild keeps `BLOCK_FAILED_CHILD`, and nothing on its path has `BLOCK_FAILED_VALID`. -/
theorem failInv_not_run : ¬ ∀ ops s, runChainOps ops = some s → s.FailInv := by
  intro hall
  have hrun := hall reconsiderSibling ((runChainOps reconsiderSibling).get reconsiderSibling_isSome)
    (Option.some_get _).symm
  obtain ⟨a, ha, hv⟩ := hrun 2 (by decide) (by decide)
  have hnone : ∀ a ∈ ((runChainOps reconsiderSibling).get reconsiderSibling_isSome).index.path 2,
      (((runChainOps reconsiderSibling).get reconsiderSibling_isSome).status a).failedValid = false := by
    decide
  have hmem := (BlockIndex.mem_path (show 2 ∈ _ by decide)).mpr ha
  rw [hnone a hmem] at hv
  cases hv

end DigiWage
