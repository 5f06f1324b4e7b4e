import DigiWage.Chain.Node

/-!
# The candidates along runs

In the states between the operations `setBlockIndexCandidates` should hold exactly the entries that can become the tip
(`CandidatesOk`, as `CheckBlockIndex` asserts).

* Headers, blocks and `ActivateBestChain` keep the candidates complete, and `InvalidateBlock` completes them.
* `ReconsiderBlock` clears the marks of the ancestors of the block but does not add them to the candidates. The
  candidates stay complete when no ancestor that it clears could become the tip (`complete_reconsider`).
-/

namespace DigiWage

open Lib

namespace ChainState

variable {src : BlockSource} {s s' : ChainState} {p q : Ptr} {orc : Oracle} {valid : Ptr → Bool}

/-- The candidates hold every entry that can become the tip, and nothing that compares below the tip or lacks data. -/
structure CandidatesOk (s : ChainState) : Prop where
  complete : ∀ q ∈ s.index.mapBlockIndex, s.PathOk q → ¬ s.Below q → q ∈ s.setBlockIndexCandidates
  sound : ∀ q ∈ s.setBlockIndexCandidates, q ∈ s.index.mapBlockIndex ∧ s.AllData q ∧ ¬ s.Below q

theorem CandidatesOk.of_complete (h : Consistent src s) (hc : s.Complete) : s.CandidatesOk := by
  refine ⟨fun q hq hpath hb => ?_, fun q hq => ?_⟩
  · exact hc q hq ((h.links.linked_iff q hq).mpr fun a ha => (hpath a ha).1) (hpath q (.refl q)).2 hb
  · have hqm := h.wf.candidates q hq
    obtain ⟨hl, hb⟩ := h.sound q hq
    exact ⟨hqm, (h.links.linked_iff q hqm).mp hl, hb⟩

/-! ## One operation -/

theorem Complete.init : ChainState.init.Complete := by
  intro q hq
  simp [ChainState.init, BlockIndex.empty] at hq

theorem complete_added {new : Ptr} {block : CBlockHeader} (hs : Consistent src s) (hc : s.Complete)
    (ha : Added s new block s') : s'.Complete := by
  intro q hq hl hf hb
  rw [ha.mapBlockIndex] at hq
  rcases List.mem_cons.mp hq with rfl | hq
  · rw [ha.status_new] at hl
    exact absurd rfl hl
  · rw [ha.status_old q hq] at hl hf
    rw [ha.below hs.wf hq] at hb
    rw [ha.setBlockIndexCandidates]
    exact hc q hq hl hf hb

theorem complete_grown (hs : Consistent src s) (hc : s.Complete) (hg : Grown s s') : s'.Complete := by
  intro q hq hl hf hb
  rw [hg.index] at hq
  by_cases hlq : (s.status q).nChainTx = 0
  · exact (hg.cand q).mpr (Or.inr ⟨hlq, hl, hb⟩)
  · rw [hg.old q hlq] at hf
    rw [hg.below hs hlq] at hb
    exact (hg.cand q).mpr (Or.inl (hc q hq hlq hf hb))

/-- The ancestors whose marks `ReconsiderBlock` clears compare below the tip, unless they lack data. -/
def AncestorsBelow (s : ChainState) (p : Ptr) : Prop :=
  ∀ a, s.index.IsAnc a p → a ≠ p → (s.status a).failed = true → s.AllData a → s.Below a

theorem complete_reconsider (hs : Consistent src s) (hc : s.Complete) (hp : p ∈ s.index.mapBlockIndex)
    (heq : s.reconsiderBlock p = some s') (hok : s.AncestorsBelow p) : s'.Complete := by
  have hframe := frame_reconsider heq
  intro q hq hl hf hb
  rw [hframe.index] at hq
  rw [hframe.nChainTx] at hl
  rw [reconsider_below heq] at hb
  refine (reconsider_cand heq).mpr ?_
  cases hfq : (s.status q).failed with
  | false => exact Or.inl (hc q hq hl hfq hb)
  | true =>
    -- the mark was cleared: at a descendant of the block, or at an ancestor
    have hcleared : s.index.IsAnc p q ∨ s.index.IsAnc q p := by
      by_contra hnot
      rw [not_or] at hnot
      rw [(reconsider_flags hp heq hq).1.mpr ⟨hfq, hnot⟩] at hf
      cases hf
    by_cases hpq : s.index.IsAnc p q
    · have hcmp : q ∈ s.compared p := by
        refine mem_compared.mpr ⟨mem_reconsidered.mpr ⟨hq, ?_, hpq⟩, hs.received q hq (hs.links.linked q hq hl).1, hl⟩
        rw [BlockStatus.isValid, hfq]
        rfl
      refine Or.inr ⟨hcmp, ?_⟩
      cases ht : s.tip with
      | none =>
        unfold reconsiderBlock at heq
        rw [ht] at heq
        simp only [Option.ite_none_right_eq_some, List.isEmpty_iff] at heq
        exact absurd heq.1 (List.ne_nil_of_mem hcmp)
      | some t =>
        have hqt : q ≠ t := by
          rintro rfl
          rw [(hs.tip_linked ht).2.2] at hfq
          cases hfq
        have hnot := (not_below_iff ht).mp hb
        exact ⟨t, rfl, (workLess_total hqt).resolve_left (by rw [hnot]; exact Bool.false_ne_true)⟩
    · refine absurd (hok q (hcleared.resolve_left hpq) ?_ hfq ((hs.links.linked_iff q hq).mp hl)) hb
      rintro rfl
      exact hpq (.refl q)

theorem complete_activate {fuel : Nat} (hs : Consistent src s) (hc : s.Complete)
    (hv : ∀ a, s.chainActive.contains s.index a = true → valid a = true) (horc : orc.Steady valid)
    (hdone : activateBestChain orc fuel s = .done s') :
    s'.Complete ∧ ∀ a, s'.chainActive.contains s'.index a = true → valid a = true := by
  obtain ⟨s₁, -, ⟨r, hr⟩, hexit⟩ := activateBestChain_rule (I := fun s => ∃ r, Reference valid s r) horc.noErrors
    (fun _ _ hI hcont => Reference.continues hI horc hcont) hs ⟨s.tip, .of_tip hs hc hv⟩ hdone
  exact ⟨hexit.complete hr, hexit.valid_chain hr horc⟩

end ChainState

open ChainState

/-! ## Runs -/

/-- The operation has no wraps and system errors, `ConnectBlock` says of each block whether it is `valid`, and
`ReconsiderBlock` clears no ancestor of the block that could become the tip. -/
def NodeOp.KeepsComplete (src : BlockSource) (valid : Ptr → Bool) (s : ChainState) (op : NodeOp) : Prop :=
  op.Sane src s ∧
    match op with
    | header _ _ => True
    | data _ => True
    | activateBestChain orc _ => orc.Steady valid
    | invalidateBlock _ _ => True
    | reconsiderBlock p => s.AncestorsBelow p

/-- The invariant of the runs. -/
structure Selected (src : BlockSource) (valid : Ptr → Bool) (s : ChainState) : Prop where
  cons : Consistent src s
  complete : s.Complete
  chain : ∀ a, s.chainActive.contains s.index a = true → valid a = true

theorem Selected.init (src : BlockSource) (valid : Ptr → Bool) : Selected src valid ChainState.init :=
  ⟨.init src, .init, fun a ha => by cases ha⟩

theorem Selected.step {src : BlockSource} {valid : Ptr → Bool} {s s' : ChainState} {op : NodeOp}
    (h : Selected src valid s) (hop : op.KeepsComplete src valid s) (heq : op.step src s = some s') :
    Selected src valid s' := by
  obtain ⟨hsane, hop⟩ := hop
  have hs' := step_consistent h.cons hsane heq
  cases op with
  | header new hash =>
    cases heq
    rcases acceptHeader_cases src s new hash with heq | ⟨-, -, ha⟩
    · rw [heq]
      exact h
    · exact ⟨hs', complete_added h.cons h.complete ha, fun a hc => h.chain a (ha.contains h.cons.wf hc).2⟩
  | data hash =>
    cases heq
    rcases acceptData_cases src s hash with heq | ⟨p, hp, hh, hf, hd, hlen, hpar, heq⟩
    · rw [heq]
      exact h
    · rw [heq] at hs' ⊢
      have hg := (grown_received h.cons hp hh hd hlen hpar).2
      refine ⟨hs', complete_grown h.cons h.complete hg, ?_⟩
      rw [hg.index, hg.chainActive]
      exact h.chain
  | activateBestChain orc fuel =>
    have hdone := step_activate hsane h.cons heq
    obtain ⟨h₁, h₂⟩ := complete_activate h.cons h.complete h.chain hop hdone
    exact ⟨hs', h₁, h₂⟩
  | invalidateBlock orc p =>
    simp only [NodeOp.step, Option.ite_none_right_eq_some, Option.map_eq_some_iff] at heq
    obtain ⟨-, ⟨ok, s₁⟩, hres, rfl⟩ := heq
    obtain ⟨-, -, hcomp, hchain⟩ := invalidateBlock_spec hsane h.cons hres
    exact ⟨hs', hcomp, fun a ha => h.chain a (hchain a ha)⟩
  | reconsiderBlock p =>
    simp only [NodeOp.step, Option.ite_none_right_eq_some] at heq
    refine ⟨hs', complete_reconsider h.cons h.complete heq.1 heq.2 hop, ?_⟩
    obtain ⟨hidx, hchain, -⟩ := reconsider_frame heq.2
    rw [hidx, hchain]
    exact h.chain

/-- **Candidates.** In every state of a run whose operations meet `KeepsComplete` the candidates are complete and
sound. -/
theorem candidates_run {src : BlockSource} {ops : List NodeOp} {s : ChainState} (valid : Ptr → Bool)
    (hmeets : RunMeets src (fun s op => op.KeepsComplete src valid s) ChainState.init ops)
    (hrun : runNode src ops = some s) : s.CandidatesOk := by
  have h : Selected src valid s := run_rule (fun _ _ _ h hop heq => h.step hop heq) (.init src valid) hmeets hrun
  exact .of_complete h.cons h.complete

theorem RunMeets.imp {src : BlockSource} {P Q : ChainState → NodeOp → Prop} : ∀ {ops : List NodeOp} {s : ChainState},
    (∀ s, ∀ op ∈ ops, P s op → Q s op) → RunMeets src P s ops → RunMeets src Q s ops
  | [], _, _, _ => trivial
  | op :: _, s, himp, ⟨hop, hrest⟩ => ⟨himp s op List.mem_cons_self hop, fun s' hs' =>
    (hrest s' hs').imp fun s op hmem => himp s op (List.mem_cons_of_mem _ hmem)⟩

theorem RunMeets.append {src : BlockSource} {P : ChainState → NodeOp → Prop} {ops' : List NodeOp} :
    ∀ {ops : List NodeOp} {s : ChainState}, RunMeets src P s ops →
    (∀ s', ops.foldlM (NodeOp.step src) s = some s' → RunMeets src P s' ops') → RunMeets src P s (ops ++ ops')
  | [], s, _, h => h s rfl
  | op :: ops, s, ⟨hop, hrest⟩, h => by
    refine ⟨hop, fun s' hs' => (hrest s' hs').append fun s'' hs'' => h s'' ?_⟩
    rw [List.foldlM_cons, hs']
    exact hs''

/-- Block 1 becomes the tip, and is then invalidated. -/
def invalidateTip : List NodeOp := twoBlocks ++ [.activateBestChain .succeeds 100, .invalidateBlock .succeeds 1]

theorem invalidateTip_isSome : (runNode forkSource invalidateTip).isSome := by decide

theorem reconsiderTip_isSome : (runNode forkSource (invalidateTip ++ [.reconsiderBlock 1])).isSome := by decide

/-- The block is reconsidered. -/
theorem candidates_reconsiderTip : ((runNode forkSource (invalidateTip ++ [.reconsiderBlock 1])).get
    reconsiderTip_isSome).CandidatesOk := by
  refine candidates_run (fun _ => true) ?_ (Option.some_get _).symm
  refine .append (.append ?_ fun _ _ => ?_) fun s hs => ⟨⟨trivial, ?_⟩, fun _ _ => trivial⟩
  · refine twoBlocks_sane.imp fun s op hop hsane => ?_
    simp only [twoBlocks, List.mem_cons, List.not_mem_nil, or_false] at hop
    rcases hop with rfl | rfl | rfl | rfl <;> exact ⟨hsane, trivial⟩
  · exact ⟨⟨Oracle.succeeds_steady.noErrors, Oracle.succeeds_steady⟩, fun _ _ =>
      ⟨⟨Oracle.succeeds_steady.noErrors, trivial⟩, fun _ _ => trivial⟩⟩
  · -- the genesis block is not marked
    have hs' : s = (runNode forkSource invalidateTip).get invalidateTip_isSome :=
      Option.some.inj (hs.symm.trans (Option.some_get _).symm)
    have hmem : 1 ∈ ((runNode forkSource invalidateTip).get invalidateTip_isSome).index.mapBlockIndex := by
      decide
    have hpath : ∀ a ∈ ((runNode forkSource invalidateTip).get invalidateTip_isSome).index.path 1, a ≠ 1 →
        (((runNode forkSource invalidateTip).get invalidateTip_isSome).status a).failed = false := by decide
    intro a ha hne hf
    subst hs'
    rw [hpath a ((BlockIndex.mem_path hmem).mpr ha) hne] at hf
    cases hf

/-! ## A candidate that is missing -/

/-- Blocks 1 and 2 become the active chain. Then block 1 is invalidated and block 2 reconsidered. -/
def reconsiderChild : List NodeOp :=
  twoBlocks ++ [.header 2 2, .data 2, .activateBestChain .succeeds 100, .invalidateBlock .succeeds 1, .reconsiderBlock 2]

theorem reconsiderChild_isSome : (runNode forkSource reconsiderChild).isSome := by decide

/-- Block 1 has data, is not marked and has more work than the tip, but is not a candidate. -/
theorem candidates_not_run : ¬ ∀ src ops s, runNode src ops = some s → s.CandidatesOk := by
  intro hall
  have hrun := hall forkSource reconsiderChild ((runNode forkSource reconsiderChild).get reconsiderChild_isSome)
    (Option.some_get _).symm
  have hmem : 1 ∈ ((runNode forkSource reconsiderChild).get reconsiderChild_isSome).index.mapBlockIndex := by
    decide
  have hpath : ∀ a ∈ ((runNode forkSource reconsiderChild).get reconsiderChild_isSome).index.path 1,
      (((runNode forkSource reconsiderChild).get reconsiderChild_isSome).status a).haveData = true ∧
      (((runNode forkSource reconsiderChild).get reconsiderChild_isSome).status a).failed = false := by decide
  have htip : ((runNode forkSource reconsiderChild).get reconsiderChild_isSome).tip = some 0 := by decide
  have hless : ((runNode forkSource reconsiderChild).get reconsiderChild_isSome).workLess 1 0 = false := by
    decide
  have hnot : 1 ∉ ((runNode forkSource reconsiderChild).get reconsiderChild_isSome).setBlockIndexCandidates := by
    decide
  exact hnot (hrun.complete 1 hmem (fun a ha => hpath a ((BlockIndex.mem_path hmem).mpr ha))
    ((not_below_iff htip).mpr hless))

end DigiWage
