import DigiWage.Chain.Failure

/-!
# Candidates for the tip

`setBlockIndexCandidates` is ordered by `CBlockIndexWorkComparator`, a strict total order (`workLess_trans`,
`workLess_total`), and `bestCandidate` is its greatest element.

`Consistent` collects what holds between the operations, whatever `ConnectBlock` says: entries belong to blocks and are
linked, the active chain is connected and not failed, and every candidate is linked and does not compare below the tip.
Most operations change nothing but marks and candidates (`Frame`), so only the last two points are left to show for them.
-/

namespace DigiWage

open Lib

/-! ## The order -/

/-- The order of `CBlockIndexWorkComparator` on work, sequence id and address. -/
def WorkOrder (w n p w' n' p' : Nat) : Prop := w < w' ∨ (w = w' ∧ (n' < n ∨ (n = n' ∧ p' < p)))

theorem WorkOrder.trans {w n p w' n' p' w'' n'' p'' : Nat} (h₁ : WorkOrder w n p w' n' p')
    (h₂ : WorkOrder w' n' p' w'' n'' p'') : WorkOrder w n p w'' n'' p'' := by
  unfold WorkOrder at *
  omega

theorem WorkOrder.irrefl (w n p : Nat) : ¬ WorkOrder w n p w n p := by
  unfold WorkOrder
  omega

theorem WorkOrder.total {w n p w' n' p' : Nat} (h : p ≠ p') :
    WorkOrder w n p w' n' p' ∨ WorkOrder w' n' p' w n p := by
  unfold WorkOrder
  omega

namespace ChainState

variable {s s' : ChainState} {a b c p q : Ptr}

theorem workLess_iff : s.workLess a b = true ↔
    WorkOrder (s.index.work a) (s.status a).nSequenceId a (s.index.work b) (s.status b).nSequenceId b := by
  unfold workLess WorkOrder
  rcases Nat.lt_trichotomy (s.index.work a) (s.index.work b) with h | h | h
  · simp [h, Nat.lt_asymm h]
  · rcases Nat.lt_trichotomy (s.status a).nSequenceId (s.status b).nSequenceId with h' | h' | h'
    · simp [h, h', Nat.lt_asymm h', Nat.ne_of_lt h']
    · rcases Nat.lt_trichotomy a b with h'' | h'' | h''
      · simp [h, h', h'', Nat.lt_asymm h'']
      · subst h''
        simp
      · simp [h, h', h'', Nat.lt_asymm h'']
    · simp [h, h', Nat.lt_asymm h']
  · simp [h, Nat.lt_asymm h, Nat.ne_of_gt h]

theorem workLess_trans (h₁ : s.workLess a b = true) (h₂ : s.workLess b c = true) : s.workLess a c = true := by
  rw [workLess_iff] at *
  exact h₁.trans h₂

theorem workLess_irrefl (s : ChainState) (a : Ptr) : s.workLess a a = false := by
  rw [Bool.eq_false_iff, ne_eq, workLess_iff]
  exact WorkOrder.irrefl _ _ _

theorem workLess_total (h : a ≠ b) : s.workLess a b = true ∨ s.workLess b a = true := by
  rw [workLess_iff, workLess_iff]
  exact WorkOrder.total h

theorem workLess_of_work (h : s.index.work a < s.index.work b) : s.workLess a b = true :=
  workLess_iff.mpr (Or.inl h)

theorem work_le_of_not_workLess (h : s.workLess a b = false) : s.index.work b ≤ s.index.work a := by
  by_contra hlt
  rw [workLess_of_work (Nat.lt_of_not_le hlt)] at h
  cases h

theorem workLess_asymm (h : s.workLess a b = true) : s.workLess b a = false := by
  rw [Bool.eq_false_iff]
  intro h'
  have := workLess_trans h h'
  rw [workLess_irrefl] at this
  cases this

theorem not_workLess_trans (h₁ : s.workLess a b = false) (h₂ : s.workLess b c = false) : s.workLess a c = false := by
  by_cases hab : a = b
  · rw [hab]
    exact h₂
  · have hba : s.workLess b a = true := (workLess_total hab).resolve_left (by rw [h₁]; exact Bool.false_ne_true)
    rw [Bool.eq_false_iff]
    intro hac
    rw [workLess_trans hba hac] at h₂
    cases h₂

theorem foldl_best (s : ChainState) : ∀ (l : List Ptr) (b : Ptr), ∃ p,
    l.foldl (fun best p => match best with
      | none => some p
      | some q => if s.workLess q p then some p else some q) (some b) = some p ∧
    (p = b ∨ p ∈ l) ∧ s.workLess p b = false ∧ ∀ q ∈ l, s.workLess p q = false
  | [], b => ⟨b, rfl, Or.inl rfl, workLess_irrefl s b, by simp⟩
  | x :: l, b => by
    cases hbx : s.workLess b x with
    | true =>
      obtain ⟨p, hp, hmem, hpx, hl⟩ := foldl_best s l x
      refine ⟨p, by simp only [List.foldl_cons, hbx, if_true]; exact hp, Or.inr ?_, ?_, ?_⟩
      · rcases hmem with rfl | h
        · exact List.mem_cons_self
        · exact List.mem_cons_of_mem _ h
      · exact not_workLess_trans hpx (workLess_asymm hbx)
      · intro q hq
        rcases List.mem_cons.mp hq with rfl | hq
        · exact hpx
        · exact hl q hq
    | false =>
      obtain ⟨p, hp, hmem, hpb, hl⟩ := foldl_best s l b
      refine ⟨p, by simp only [List.foldl_cons, hbx, Bool.false_eq_true, if_false]; exact hp, ?_, hpb, ?_⟩
      · rcases hmem with rfl | h
        · exact Or.inl rfl
        · exact Or.inr (List.mem_cons_of_mem _ h)
      · intro q hq
        rcases List.mem_cons.mp hq with rfl | hq
        · exact not_workLess_trans hpb hbx
        · exact hl q hq

theorem bestCandidate_spec (s : ChainState) : (s.bestCandidate = none ∧ s.setBlockIndexCandidates = []) ∨
    ∃ p, s.bestCandidate = some p ∧ p ∈ s.setBlockIndexCandidates ∧
      ∀ q ∈ s.setBlockIndexCandidates, s.workLess p q = false := by
  unfold bestCandidate
  cases s.setBlockIndexCandidates with
  | nil => exact Or.inl ⟨rfl, rfl⟩
  | cons x l =>
    obtain ⟨p, hp, hmem, hpx, hl⟩ := foldl_best s l x
    refine Or.inr ⟨p, hp, ?_, ?_⟩
    · rcases hmem with rfl | h
      · exact List.mem_cons_self
      · exact List.mem_cons_of_mem _ h
    · intro q hq
      rcases List.mem_cons.mp hq with rfl | hq
      · exact hpx
      · exact hl q hq

/-- The entry compares below the tip. -/
def Below (s : ChainState) (p : Ptr) : Prop := ∃ tip, s.tip = some tip ∧ s.workLess p tip = true

theorem not_below_iff {tip : Ptr} (h : s.tip = some tip) : ¬ s.Below p ↔ s.workLess p tip = false := by
  unfold Below
  rw [h]
  simp

/-! ## What most operations leave alone -/

/-- From `s` to `s'` only marks, validity levels, candidates and the active chain change. -/
structure Frame (s s' : ChainState) : Prop where
  index : s'.index = s.index
  unlinked : s'.mapBlocksUnlinked = s.mapBlocksUnlinked
  haveData : ∀ q, (s'.status q).haveData = (s.status q).haveData
  nTx : ∀ q, (s'.status q).nTx = (s.status q).nTx
  nChainTx : ∀ q, (s'.status q).nChainTx = (s.status q).nChainTx
  nSequenceId : ∀ q, (s'.status q).nSequenceId = (s.status q).nSequenceId
  nValid : ∀ q, (s.status q).nValid ≤ (s'.status q).nValid

namespace Frame

theorem refl (s : ChainState) : Frame s s :=
  ⟨rfl, rfl, fun _ => rfl, fun _ => rfl, fun _ => rfl, fun _ => rfl, fun _ => Nat.le_refl _⟩

theorem trans {s'' : ChainState} (h₁ : Frame s s') (h₂ : Frame s' s'') : Frame s s'' :=
  ⟨h₂.index.trans h₁.index, h₂.unlinked.trans h₁.unlinked, fun q => (h₂.haveData q).trans (h₁.haveData q),
    fun q => (h₂.nTx q).trans (h₁.nTx q), fun q => (h₂.nChainTx q).trans (h₁.nChainTx q),
    fun q => (h₂.nSequenceId q).trans (h₁.nSequenceId q), fun q => Nat.le_trans (h₁.nValid q) (h₂.nValid q)⟩

theorem of_status (hi : s'.index = s.index) (hu : s'.mapBlocksUnlinked = s.mapBlocksUnlinked)
    (h : s'.status = s.status) : Frame s s' :=
  ⟨hi, hu, fun _ => by rw [h], fun _ => by rw [h], fun _ => by rw [h], fun _ => by rw [h],
    fun _ => by rw [h]⟩

theorem of_update (hi : s'.index = s.index) (hu : s'.mapBlocksUnlinked = s.mapBlocksUnlinked) {st : BlockStatus}
    (h : s'.status = Function.update s.status p st) (hd : st.haveData = (s.status p).haveData)
    (ht : st.nTx = (s.status p).nTx) (hc : st.nChainTx = (s.status p).nChainTx)
    (hs : st.nSequenceId = (s.status p).nSequenceId) (hv : (s.status p).nValid ≤ st.nValid) : Frame s s' := by
  refine ⟨hi, hu, fun q => ?_, fun q => ?_, fun q => ?_, fun q => ?_, fun q => ?_⟩ <;>
    rw [h] <;> by_cases hq : q = p
  · rw [hq, Function.update_self, hd]
  · rw [Function.update_of_ne hq]
  · rw [hq, Function.update_self, ht]
  · rw [Function.update_of_ne hq]
  · rw [hq, Function.update_self, hc]
  · rw [Function.update_of_ne hq]
  · rw [hq, Function.update_self, hs]
  · rw [Function.update_of_ne hq]
  · rw [hq, Function.update_self]
    exact hv
  · rw [Function.update_of_ne hq]

theorem workLess (h : Frame s s') (a b : Ptr) : s'.workLess a b = s.workLess a b := by
  unfold ChainState.workLess
  rw [h.index, h.nSequenceId, h.nSequenceId]

theorem sourceInv {src : BlockSource} (h : Frame s s') (hs : SourceInv src s) : SourceInv src s' := by
  refine ⟨by rw [h.index]; exact hs.toIndexOf, fun p hp => ?_, fun p hp => ?_⟩
  · rw [h.index] at hp ⊢
    rw [h.nTx, h.haveData]
    exact hs.nTx p hp
  · rw [h.index] at hp
    exact Nat.le_trans (hs.tree p hp) (h.nValid p)

theorem linkInv (h : Frame s s') (hl : LinkInv s []) : LinkInv s' [] := by
  have hpar : ∀ p, s'.parentChainTx p = s.parentChainTx p := by
    intro p
    unfold parentChainTx
    rw [h.index]
    cases s.index.pprev p with
    | none => rfl
    | some q => exact h.nChainTx q
  refine ⟨fun p hp hne => ?_, by simp, fun p hp hd hz hq => ?_, fun q p hm => ?_, hl.nodup_queue, ?_, fun p hp hd => ?_⟩
  · rw [h.index] at hp ⊢
    rw [h.nChainTx] at hne
    rw [h.haveData, h.nChainTx, h.nTx, hpar]
    obtain ⟨h₁, h₂, h₃⟩ := hl.linked p hp hne
    exact ⟨h₁, fun q hq => by rw [h.nChainTx]; exact h₂ q hq, h₃⟩
  · rw [h.index] at hp ⊢
    rw [h.haveData] at hd
    rw [h.nChainTx] at hz
    obtain ⟨q, h₁, h₂, h₃⟩ := hl.waits p hp hd hz hq
    exact ⟨q, h₁, by rw [h.nChainTx]; exact h₂, by rw [h.unlinked]; exact h₃⟩
  · rw [h.unlinked] at hm
    rw [h.index, h.haveData, h.nChainTx, h.nChainTx]
    exact hl.unlinked q p hm
  · rw [h.unlinked]
    exact hl.nodup_unlinked
  · rw [h.index] at hp
    rw [h.haveData] at hd
    rw [h.nTx]
    exact hl.nTx_pos p hp hd

end Frame

/-! ## Consistent states -/

/-- What holds between the operations, but for the completeness of the candidates. -/
structure Consistent (src : BlockSource) (s : ChainState) : Prop where
  source : SourceInv src s
  links : LinkInv s []
  bound : TreeBound src s.index
  wf : s.WellFormed
  received : ∀ p ∈ s.index.mapBlockIndex, (s.status p).haveData = true → BLOCK_VALID_TRANSACTIONS ≤ (s.status p).nValid
  /-- The work of a block with data is more than the work of its parent. -/
  work : ∀ p ∈ s.index.mapBlockIndex, (s.status p).haveData = true → ∀ q, s.index.pprev p = some q →
    s.index.work q < s.index.work p
  /-- The active chain is linked, not failed, and but for the genesis block checked. -/
  chain : ∀ a, s.chainActive.contains s.index a = true → (s.status a).failed = false ∧ (s.status a).nChainTx ≠ 0 ∧
    (s.index.pprev a = none ∨ BLOCK_VALID_SCRIPTS ≤ (s.status a).nValid)
  /-- The candidates are linked and do not compare below the tip. -/
  sound : ∀ p ∈ s.setBlockIndexCandidates, (s.status p).nChainTx ≠ 0 ∧ ¬ s.Below p

namespace Consistent

variable {src : BlockSource}

theorem of_frame (h : Consistent src s) (hf : Frame s s') (hwf : s'.WellFormed)
    (hchain : ∀ a, s'.chainActive.contains s.index a = true → (s'.status a).failed = false ∧
      (s.status a).nChainTx ≠ 0 ∧ (s.index.pprev a = none ∨ BLOCK_VALID_SCRIPTS ≤ (s'.status a).nValid))
    (hsound : ∀ p ∈ s'.setBlockIndexCandidates, (s.status p).nChainTx ≠ 0 ∧ ¬ s'.Below p) : Consistent src s' := by
  refine ⟨hf.sourceInv h.source, hf.linkInv h.links, by rw [hf.index]; exact h.bound, hwf, fun p hp hd => ?_,
    fun p hp hd q hq => ?_, fun a ha => ?_, fun p hp => ?_⟩
  · rw [hf.index] at hp
    rw [hf.haveData] at hd
    exact Nat.le_trans (h.received p hp hd) (hf.nValid p)
  · rw [hf.index] at hp hq ⊢
    rw [hf.haveData] at hd
    exact h.work p hp hd q hq
  · rw [hf.index] at ha ⊢
    rw [hf.nChainTx]
    exact hchain a ha
  · rw [hf.nChainTx]
    exact hsound p hp

theorem linked_anc (h : Consistent src s) (hp : p ∈ s.index.mapBlockIndex) (hl : (s.status p).nChainTx ≠ 0)
    (ha : s.index.IsAnc a p) : (s.status a).nChainTx ≠ 0 ∧ (s.status a).haveData = true := by
  have hm := s.index.rooted.anc_mem hp ha
  have hl' : (s.status a).nChainTx ≠ 0 := by
    rw [h.links.linked_iff a hm]
    intro b hb
    exact (h.links.linked_iff p hp).mp hl b (hb.trans ha)
  exact ⟨hl', (h.links.linked a hm hl').1⟩

theorem work_anc (h : Consistent src s) (hp : p ∈ s.index.mapBlockIndex) (hl : (s.status p).nChainTx ≠ 0)
    (ha : s.index.IsAnc a p) (hne : a ≠ p) : s.index.work a < s.index.work p := by
  revert hl ha hne
  refine s.index.rooted.induct_on (C := fun p => (s.status p).nChainTx ≠ 0 → s.index.IsAnc a p → a ≠ p →
    s.index.work a < s.index.work p) (fun p hp ih hl ha hne => ?_) p hp
  obtain ⟨q, hq, haq⟩ := ha.of_ne hne
  have hqp := h.work p hp (h.links.linked p hp hl).1 q hq
  by_cases haq' : a = q
  · rw [haq']
    exact hqp
  · exact Nat.lt_trans (ih q hq ((h.links.linked p hp hl).2.1 q hq) haq haq') hqp

theorem not_workLess_anc (h : Consistent src s) (hp : p ∈ s.index.mapBlockIndex) (hl : (s.status p).nChainTx ≠ 0)
    (ha : s.index.IsAnc a p) : s.workLess p a = false := by
  by_cases hne : a = p
  · rw [hne]
    exact workLess_irrefl s p
  · exact workLess_asymm (workLess_of_work (h.work_anc hp hl ha hne))

theorem common_root (h : Consistent src s) (hp : p ∈ s.index.mapBlockIndex) (hq : q ∈ s.index.mapBlockIndex) :
    ∃ g, s.index.IsAnc g p ∧ s.index.IsAnc g q := by
  have hroot : ∀ r ∈ s.index.mapBlockIndex, ∃ g ∈ s.index.mapBlockIndex, s.index.IsAnc g r ∧
      (s.index.entry g).hash = src.hashGenesisBlock := by
    intro r hr
    obtain ⟨g, hg, hg0⟩ := s.index.rooted.exists_at hr (Nat.zero_le _)
    have hgm := s.index.rooted.anc_mem hr hg
    refine ⟨g, hgm, hg, ?_⟩
    rcases h.source.parent g hgm with ⟨hh, -⟩ | ⟨-, q, hq, -⟩
    · exact hh
    · have := s.index.rooted.succ hgm hq
      omega
  obtain ⟨g, hgm, hgp, hgh⟩ := hroot p hp
  obtain ⟨g', hgm', hgq, hgh'⟩ := hroot q hq
  rw [← s.index.hash_inj g hgm g' hgm' (hgh.trans hgh'.symm)] at hgq
  exact ⟨g, hgp, hgq⟩

theorem tip_linked (h : Consistent src s) {tip : Ptr} (ht : s.tip = some tip) :
    tip ∈ s.index.mapBlockIndex ∧ (s.status tip).nChainTx ≠ 0 ∧ (s.status tip).failed = false := by
  have hc := h.chain tip ((h.wf.active.contains_iff ht).mpr (.refl tip))
  exact ⟨(h.wf.active.of_tip ht).1, hc.2.1, hc.1⟩

end Consistent

end ChainState

end DigiWage
