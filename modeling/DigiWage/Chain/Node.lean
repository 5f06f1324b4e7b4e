import DigiWage.Chain.BestChain

/-!
# Runs of a node

A node receives headers and blocks in any order, and in between it activates the best chain, or invalidates or
reconsiders blocks by hand. `Grown`, `Cut` and `Cleared` say what these operations do to the candidates, the chain and
the marks.

* `run_consistent`: every state of a run is consistent, as long as counters do not wrap and there are no system errors.
-/

namespace DigiWage

open Lib

/-- The operations of a node. -/
inductive NodeOp where
  | header (new : Ptr) (hash : Uint256)
  | data (hash : Uint256)
  | activateBestChain (orc : Oracle) (fuel : Nat)
  | invalidateBlock (orc : Oracle) (p : Ptr)
  | reconsiderBlock (p : Ptr)

/-- An operation; there is no state after it when an assertion fails, a null pointer is followed, or the rounds do not
suffice. -/
def NodeOp.step (src : BlockSource) (s : ChainState) : NodeOp → Option ChainState
  | header new hash => some (acceptHeader src s new hash)
  | data hash => some (acceptData src s hash)
  | activateBestChain orc fuel =>
    match DigiWage.activateBestChain orc fuel s with
    | .done s' => some s'
    | .failed s' => some s'
    | .aborted => none
    | .running => none
  | invalidateBlock orc p => if p ∈ s.index.mapBlockIndex then (s.invalidateBlock orc p).map Prod.snd else none
  | reconsiderBlock p => if p ∈ s.index.mapBlockIndex then s.reconsiderBlock p else none

/-- A run from the state of a node without blocks. -/
def runNode (src : BlockSource) (ops : List NodeOp) : Option ChainState := ops.foldlM (NodeOp.step src) ChainState.init

/-- The operation does not make a counter wrap and has no system errors: no path of the tree has `2 ^ 32` transactions,
and a block adds to the work of its parent. -/
def NodeOp.Sane (src : BlockSource) (s : ChainState) : NodeOp → Prop
  | header new hash => TreeBound src (acceptHeader src s new hash).index
  | data hash => ∀ p ∈ s.index.mapBlockIndex, (s.index.entry p).hash = hash → ∀ q ∈ s.index.pprev p,
    s.index.work q < s.index.work p
  | activateBestChain orc _ => orc.NoErrors
  | invalidateBlock orc _ => orc.NoErrors
  | reconsiderBlock _ => True

namespace ChainState

variable {src : BlockSource} {s s' s₁ : ChainState} {p q t : Ptr} {orc : Oracle}

theorem Consistent.init (src : BlockSource) : Consistent src ChainState.init := by
  refine ⟨.init src, .init, ?_, .init, ?_, ?_, ?_, ?_⟩ <;> intro p hp
  all_goals simp [ChainState.init, BlockIndex.empty, CChain.contains, CChain.get] at hp

/-! ## A new entry -/

theorem Added.workLess {new : Ptr} {block : CBlockHeader} (h : Added s new block s') (hp : p ∈ s.index.mapBlockIndex)
    (hq : q ∈ s.index.mapBlockIndex) : s'.workLess p q = s.workLess p q := by
  unfold ChainState.workLess
  rw [h.index, BlockIndex.work_add hp, BlockIndex.work_add hq, h.status_old p hp, h.status_old q hq]

theorem Added.below {new : Ptr} {block : CBlockHeader} (h : Added s new block s') (hs : s.WellFormed)
    (hp : p ∈ s.index.mapBlockIndex) : s'.Below p ↔ s.Below p := by
  unfold Below tip
  rw [h.chainActive]
  refine exists_congr fun t => and_congr_right fun ht => ?_
  rw [h.workLess hp (hs.active.of_tip ht).1]

theorem Added.contains {new a : Ptr} {block : CBlockHeader} (h : Added s new block s') (hs : s.WellFormed)
    (ha : s'.chainActive.contains s'.index a = true) :
    a ∈ s.index.mapBlockIndex ∧ s.chainActive.contains s.index a = true := by
  rcases hs.active.tip_cases with ⟨hc, -⟩ | ⟨t, ht, -, htip⟩
  · rw [h.chainActive, hc] at ha
    cases ha
  · have htip' : s'.tip = some t := by rw [tip, h.chainActive]; exact htip
    have hat := (h.isAnc ht).mp (((hs.added h).active.contains_iff htip').mp ha)
    exact ⟨s.index.rooted.anc_mem ht hat, (hs.active.contains_iff htip).mpr hat⟩

theorem Consistent.added {new : Ptr} {block : CBlockHeader} (h : Consistent src s) (ha : Added s new block s')
    (hsrc : SourceInv src s') (hb : TreeBound src s'.index) : Consistent src s' := by
  refine ⟨hsrc, h.links.added ha, hb, h.wf.added ha, fun p hp hd => ?_, fun p hp hd q hq => ?_, fun a hc => ?_,
    fun p hp => ?_⟩
  · rw [ha.mapBlockIndex] at hp
    rcases List.mem_cons.mp hp with rfl | hp
    · rw [ha.status_new] at hd
      cases hd
    · rw [ha.status_old p hp] at hd ⊢
      exact h.received p hp hd
  · rw [ha.mapBlockIndex] at hp
    rcases List.mem_cons.mp hp with rfl | hp
    · rw [ha.status_new] at hd
      cases hd
    · rw [ha.status_old p hp] at hd
      rw [ha.pprev hp] at hq
      rw [ha.index, BlockIndex.work_add hp, BlockIndex.work_add (s.index.rooted.mem hp hq)]
      exact h.work p hp hd q hq
  · obtain ⟨ham, hc⟩ := ha.contains h.wf hc
    rw [ha.status_old a ham, ha.pprev ham]
    exact h.chain a hc
  · rw [ha.setBlockIndexCandidates] at hp
    have hpm := h.wf.candidates p hp
    rw [ha.status_old p hpm, ha.below h.wf hpm]
    exact h.sound p hp

/-! ## New data -/

/-- From `s` to `s'` entries were linked, and those that do not compare below the tip are now candidates. -/
structure Grown (s s' : ChainState) : Prop where
  index : s'.index = s.index
  chainActive : s'.chainActive = s.chainActive
  old : ∀ q, (s.status q).nChainTx ≠ 0 → s'.status q = s.status q
  cand : ∀ q, q ∈ s'.setBlockIndexCandidates ↔ q ∈ s.setBlockIndexCandidates ∨
    ((s.status q).nChainTx = 0 ∧ (s'.status q).nChainTx ≠ 0 ∧ ¬ s'.Below q)

theorem Grown.tip (h : Grown s s') : s'.tip = s.tip := by
  unfold ChainState.tip
  rw [h.chainActive]

theorem Grown.below (h : Grown s s') (hs : Consistent src s) (hq : (s.status q).nChainTx ≠ 0) :
    s'.Below q ↔ s.Below q := by
  unfold Below
  rw [h.tip]
  refine exists_congr fun t => and_congr_right fun ht => ?_
  unfold workLess
  rw [h.index, h.old q hq, h.old t (hs.tip_linked ht).2.1]

theorem linkEntry_tip (s : ChainState) (p : Ptr) : (s.linkEntry p).tip = s.tip := by
  rw [tip, tip, linkEntry_chainActive]

theorem mem_linkEntry : q ∈ (s.linkEntry p).setBlockIndexCandidates ↔
    q ∈ s.setBlockIndexCandidates ∨ (q = p ∧ ¬ (s.linkEntry p).Below p) := by
  have hless : ∀ a b, (s.linkEntry p).workLess a b = (s.setStatus p fun st => { st with
      nChainTx := (s.parentChainTx p + st.nTx) % 2 ^ 32, nSequenceId := s.nBlockSequenceId }).workLess a b := by
    intro a b
    unfold workLess
    rw [linkEntry_index, linkEntry_status]
    rfl
  unfold Below
  rw [linkEntry_tip]
  simp only [hless]
  unfold linkEntry
  dsimp only
  have htip₁ : ∀ n, ({ s.setStatus p (fun st => { st with
      nChainTx := (s.parentChainTx p + st.nTx) % 2 ^ 32, nSequenceId := s.nBlockSequenceId }) with
    nBlockSequenceId := n } : ChainState).tip = s.tip := fun _ => rfl
  rw [htip₁]
  cases s.tip with
  | none =>
    rw [mem_insertCandidate]
    simp [setStatus, or_comm]
  | some t =>
    dsimp only
    split
    · rename_i hlt
      simp only [Option.some.injEq, exists_eq_left']
      constructor
      · exact Or.inl
      · rintro (h | ⟨-, h⟩)
        · exact h
        · exact absurd hlt h
    · rename_i hlt
      rw [mem_insertCandidate]
      simp only [Option.some.injEq, exists_eq_left']
      constructor
      · rintro (h | h)
        · exact Or.inr ⟨h, hlt⟩
        · exact Or.inl h
      · rintro (h | ⟨h, -⟩)
        · exact Or.inr h
        · exact Or.inl h

theorem Grown.linkEntry {queue : List Ptr} (h : Grown s₁ s) (hs : Consistent src s₁) (hl : LinkInv s (p :: queue))
    (hb : s.TxBound) : Grown s₁ (s.linkEntry p) := by
  obtain ⟨hp, hd, hz, -⟩ := hl.queued p List.mem_cons_self
  have hz₁ : (s₁.status p).nChainTx = 0 := by
    by_contra hne
    rw [h.old p hne] at hz
    exact hne hz
  have hother : ∀ r, r ≠ p → (s.linkEntry p).status r = s.status r := by
    intro r hr
    rw [linkEntry_status, Function.update_of_ne hr]
  have hself : ((s.linkEntry p).status p).nChainTx ≠ 0 := by
    have hsum := hl.link_sum (p := p) List.mem_cons_self
    have hlt := hb p hp
    have hpos := hl.nTx_pos p hp hd
    rw [linkEntry_status, Function.update_self]
    show (s.parentChainTx p + (s.status p).nTx) % 2 ^ 32 ≠ 0
    rw [hsum, Nat.mod_eq_of_lt hlt, ← hsum]
    omega
  have hbelow : ∀ q, q ≠ p → ((s.linkEntry p).Below q ↔ s.Below q) := by
    intro q hq
    unfold Below
    rw [linkEntry_tip]
    refine exists_congr fun t => and_congr_right fun ht => ?_
    have htp : t ≠ p := by
      rintro rfl
      rw [h.tip] at ht
      exact (hs.tip_linked ht).2.1 hz₁
    unfold workLess
    rw [linkEntry_index, hother q hq, hother t htp]
  refine ⟨(linkEntry_index s p).trans h.index, (linkEntry_chainActive s p).trans h.chainActive, fun q hq => ?_,
    fun q => ?_⟩
  · rw [hother q (by rintro rfl; exact hq hz₁)]
    exact h.old q hq
  · rw [mem_linkEntry, h.cand]
    by_cases hqp : q = p
    · subst hqp
      rw [hz]
      simp [hz₁, hself]
    · rw [hother q hqp, hbelow q hqp]
      simp [hqp]

theorem grown_received (h : Consistent src s) {hash : Uint256} (hp : p ∈ s.index.mapBlockIndex)
    (hhash : (s.index.entry p).hash = hash) (hnew : (s.status p).haveData = false)
    (hpos : 0 < (src.block hash).vtx.length) (hpar : ∀ q, s.index.pprev p = some q → (s.status q).failed = false) :
    LinkInv (s.receivedBlockTransactions p (src.block hash).vtx.length) [] ∧
      Grown s (s.receivedBlockTransactions p (src.block hash).vtx.length) := by
  refine h.source.received_links h.links h.bound hp hhash hnew hpos hpar
    (fun s' p queue hl hb hg => hg.linkEntry h hl hb) fun l => ?_
  have hz : (s.status p).nChainTx = 0 := by
    by_contra hne
    rw [(h.links.linked p hp hne).1] at hnew
    cases hnew
  have hct : ∀ q, ((s.setStatus p fun st => st.received (src.block hash).vtx.length).status q).nChainTx =
      (s.status q).nChainTx := by
    intro q
    by_cases hq : q = p
    · subst hq
      rw [hz]
      simp only [setStatus, Function.update_self]
      exact ((s.status q).received_spec _).2.1
    · simp [setStatus, Function.update_of_ne hq]
  refine ⟨rfl, rfl, fun q hq => ?_, fun q => ?_⟩
  · refine Function.update_of_ne ?_ _ _
    rintro rfl
    exact hq hz
  · refine ⟨Or.inl, ?_⟩
    rintro (hq | ⟨hzq, hne, -⟩)
    · exact hq
    · exact absurd hzq (hct q ▸ hne)

theorem Consistent.received_data (h : Consistent src s) {hash : Uint256} (hp : p ∈ s.index.mapBlockIndex)
    (hhash : (s.index.entry p).hash = hash) (hf : (s.status p).failed = false) (hnew : (s.status p).haveData = false)
    (hpos : 0 < (src.block hash).vtx.length) (hpar : ∀ q, s.index.pprev p = some q → (s.status q).failed = false)
    (hwork : ∀ q, s.index.pprev p = some q → s.index.work q < s.index.work p) :
    Consistent src (s.receivedBlockTransactions p (src.block hash).vtx.length) := by
  obtain ⟨hl, hg⟩ := grown_received h hp hhash hnew hpos hpar
  obtain ⟨hidx, -, hself, hother⟩ := received_frame s p (src.block hash).vtx.length
  refine ⟨h.source.received hhash, hl, by rw [hidx]; exact h.bound, h.wf.received hp _, fun q hq hd => ?_,
    fun q hq hd r hr => ?_, fun a ha => ?_, fun q hq => ?_⟩
  · rw [hidx] at hq
    by_cases hqp : q = p
    · subst hqp
      have hv := congrArg BlockStatus.nValid hself
      exact (((s.status q).received_spec _).2.2.2.2.2.2 hf).trans (Nat.le_of_eq hv.symm)
    · have hv := congrArg BlockStatus.nValid (hother q hqp)
      have hd' := congrArg BlockStatus.haveData (hother q hqp)
      exact (h.received q hq (hd'.symm.trans hd)).trans (Nat.le_of_eq hv.symm)
  · rw [hidx] at hq hr ⊢
    by_cases hqp : q = p
    · subst hqp
      exact hwork r hr
    · have hd' := congrArg BlockStatus.haveData (hother q hqp)
      exact h.work q hq (hd'.symm.trans hd) r hr
  · rw [hg.index] at ha ⊢
    rw [hg.chainActive] at ha
    obtain ⟨h₁, h₂, h₃⟩ := h.chain a ha
    rw [hg.old a h₂]
    exact ⟨h₁, h₂, h₃⟩
  · rcases (hg.cand q).mp hq with hq | ⟨-, hl', hb⟩
    · obtain ⟨hlq, hb⟩ := h.sound q hq
      rw [hg.old q hlq, hg.below h hlq]
      exact ⟨hlq, hb⟩
    · exact ⟨hl', hb⟩

/-! ## `InvalidateBlock` -/

/-- From `s` to `s'` the chain was cut, and of what is left of it at most `p` was marked. -/
structure Cut (s s' : ChainState) (p : Ptr) : Prop where
  frame : Frame s s'
  wf : s'.WellFormed
  chain : ∀ a, s'.chainActive.contains s.index a = true → s.chainActive.contains s.index a = true ∧
    (a ≠ p → s'.status a = s.status a)
  tip : ∀ t', s'.tip = some t' → ∃ t, s.tip = some t ∧ s.index.IsAnc t' t
  cand : ∀ q ∈ s'.setBlockIndexCandidates, q ∈ s.setBlockIndexCandidates

theorem Cut.disconnect (h : Cut s s₁ p) (ht : s₁.tip = some t) (hq : s.index.pprev t = some q) (n : Nat) :
    Cut s { ((s₁.setStatus t fun st => { st with failedChild := true }).eraseCandidates [t]) with
      nCalls := n, chainActive := CChain.ofTip s₁.index q } p := by
  have hindex := h.frame.index
  have htm : t ∈ s.index.mapBlockIndex := by
    rw [← hindex]
    exact (h.wf.active.of_tip ht).1
  have hqm := s.index.rooted.mem htm hq
  have hsucc := s.index.rooted.succ htm hq
  have hframe : Frame s₁ { ((s₁.setStatus t fun st => { st with failedChild := true }).eraseCandidates [t]) with
      nCalls := n, chainActive := CChain.ofTip s₁.index q } :=
    .of_update rfl rfl rfl rfl rfl rfl rfl (Nat.le_refl _)
  refine ⟨h.frame.trans hframe, ⟨Or.inr ⟨q, by rw [← hindex] at hqm; exact hqm, rfl⟩, fun r hr => ?_, h.wf.unlinked⟩,
    fun a ha => ?_, fun t' ht' => ?_, fun r hr => h.cand r (mem_eraseCandidates.mp hr).1⟩
  · exact h.wf.candidates r (mem_eraseCandidates.mp hr).1
  · have haq : s.index.IsAnc a q := by
      rw [hindex] at ha
      exact (CChain.contains_iff hqm).mp ha
    have hat : a ≠ t := by
      rintro rfl
      have := s.index.rooted.anc_le hqm haq
      omega
    have hca : s₁.chainActive.contains s₁.index a = true := by
      rw [h.wf.active.contains_iff ht, hindex]
      exact .up hq haq
    rw [hindex] at hca
    obtain ⟨h₁, h₂⟩ := h.chain a hca
    refine ⟨h₁, fun hap => ?_⟩
    rw [← h₂ hap]
    exact Function.update_of_ne hat _ _
  · have : (CChain.ofTip s₁.index q).tip = some t' := ht'
    rw [CChain.tip_ofTip (by rw [hindex]; exact hqm)] at this
    cases this
    obtain ⟨t₀, ht₀, ha⟩ := h.tip t ht
    exact ⟨t₀, ht₀, Anc.trans (.parent hq) ha⟩

theorem cut_invalidateLoop (horc : orc.NoErrors) : ∀ {fuel : Nat} {s₁ s' : ChainState} {ok : Bool}, Cut s s₁ p →
    s₁.chainActive.vChain.length ≤ fuel → invalidateLoop orc p fuel s₁ = some (ok, s') →
    ok = true ∧ Cut s s' p ∧ s'.chainActive.contains s.index p = false
  | 0, s₁, s', ok, h, hlen, heq => by
    cases heq
    refine ⟨rfl, h, ?_⟩
    have hnil : s₁.chainActive.vChain = [] := List.length_eq_zero_iff.mp (Nat.le_zero.mp hlen)
    unfold CChain.contains CChain.get
    rw [hnil]
    rfl
  | fuel + 1, s₁, s', ok, h, hlen, heq => by
    have hindex := h.frame.index
    unfold invalidateLoop at heq
    split at heq
    · split at heq
      · cases heq
      · rename_i t ht
        obtain ⟨htm, hchain⟩ := h.wf.active.of_tip ht
        rw [hchain, CChain.length_ofTip htm] at hlen
        have hact : ((s₁.setStatus t fun st => { st with failedChild := true }).eraseCandidates [t]).Active :=
          h.wf.active
        split at heq
        · cases heq
        · -- a system error
          rename_i s₂ hdis
          obtain ⟨r, -, -, hd, -⟩ := disconnectTip_cases hact hdis
          rw [horc.disconnect] at hd
          cases hd
        · rename_i s₂ hdis
          obtain ⟨r, hr, -, -, ⟨hd, -⟩ | ⟨-, q, hq, rfl⟩⟩ := disconnectTip_cases hact hdis
          · cases hd
          · have hrt : r = t := Option.some.inj (hr.symm.trans ht)
            subst hrt
            have hq' : s.index.pprev r = some q := by
              rw [← hindex]
              exact hq
            have hqm := s₁.index.rooted.mem htm hq
            have hsucc := s₁.index.rooted.succ htm hq
            refine cut_invalidateLoop horc (h.disconnect ht hq' _) ?_ heq
            show (CChain.ofTip s₁.index q).vChain.length ≤ fuel
            rw [CChain.length_ofTip hqm]
            omega
    · rename_i hcont
      cases heq
      rw [hindex] at hcont
      exact ⟨rfl, h, by simpa using hcont⟩

theorem cut_start (hs : Consistent src s) :
    Cut s ((s.setStatus p fun st => { st with failedValid := true }).eraseCandidates [p]) p := by
  refine ⟨.of_update rfl rfl rfl rfl rfl rfl rfl (Nat.le_refl _), hs.wf.of_frame rfl rfl
    (fun q hq => Or.inl (mem_eraseCandidates.mp hq).1) (fun _ hl => Or.inl hl), fun a ha => ⟨ha, fun hap => ?_⟩,
    fun t ht => ⟨t, ht, .refl t⟩, fun q hq => (mem_eraseCandidates.mp hq).1⟩
  exact Function.update_of_ne hap _ _

theorem Cut.mem_readded {s₂ : ChainState} (hcut : Cut s s₂ p) {t : Ptr} : q ∈ s₂.readded t ↔ q ∈ s.index.mapBlockIndex ∧
    (s₂.status q).isValid BLOCK_VALID_TRANSACTIONS = true ∧ (s.status q).nChainTx ≠ 0 ∧ s.workLess q t = false := by
  unfold readded
  rw [List.mem_filter, hcut.frame.index, Bool.and_eq_true, Bool.and_eq_true, decide_eq_true_eq, Bool.not_eq_true',
    hcut.frame.workLess, hcut.frame.nChainTx, and_assoc]

theorem invalidateBlock_spec (horc : orc.NoErrors) (hs : Consistent src s) {ok : Bool}
    (heq : s.invalidateBlock orc p = some (ok, s')) : ok = true ∧ Consistent src s' ∧ s'.Complete ∧
      ∀ a, s'.chainActive.contains s'.index a = true → s.chainActive.contains s.index a = true := by
  unfold invalidateBlock at heq
  dsimp only at heq
  split at heq
  · cases heq
  · rename_i s₂ hloop
    cases (cut_invalidateLoop horc (cut_start hs) (Nat.le_refl _) hloop).1
  · rename_i s₂ hloop
    obtain ⟨-, hcut, hoff⟩ := cut_invalidateLoop horc (cut_start hs) (Nat.le_refl _) hloop
    have hindex := hcut.frame.index
    split at heq
    · cases heq
    · rename_i t' ht'
      cases heq
      obtain ⟨c, hc, hmem⟩ := foldl_insertCandidate (s₂.readded t') s₂
      obtain ⟨b, hb⟩ := invalidChainFound_eq ((s₂.readded t').foldl insertCandidate s₂) p
      rw [hb, hc]
      have hframe : Frame s { s₂ with setBlockIndexCandidates := c, pindexBestInvalid := b } :=
        hcut.frame.trans (.of_status rfl rfl rfl)
      have hbelow : ∀ q, ¬ ChainState.Below { s₂ with setBlockIndexCandidates := c, pindexBestInvalid := b } q ↔
          s.workLess q t' = false := by
        intro q
        rw [← hframe.workLess]
        exact not_below_iff ht'
      refine ⟨rfl, hs.of_frame hframe (hcut.wf.of_frame rfl rfl (fun q hq => ?_) fun _ hl => Or.inl hl)
        (fun a ha => ?_) (fun q hq => ?_), fun q hq hl hf hnb => ?_, fun a ha => ?_⟩
      · rcases (hmem q).mp hq with hq | hq
        · exact Or.inr (by rw [hindex]; exact (hcut.mem_readded.mp hq).1)
        · exact Or.inl hq
      · have hap : a ≠ p := by
          rintro rfl
          rw [hoff] at ha
          cases ha
        obtain ⟨hca, hst⟩ := hcut.chain a ha
        show ((s₂.status a).failed = false) ∧ _ ∧ (_ ∨ _ ≤ (s₂.status a).nValid)
        rw [hst hap]
        exact hs.chain a hca
      · rw [hbelow]
        rcases (hmem q).mp hq with hq | hq
        · exact (hcut.mem_readded.mp hq).2.2
        · obtain ⟨hl, hnb⟩ := hs.sound q (hcut.cand q hq)
          obtain ⟨t, ht, ha⟩ := hcut.tip t' ht'
          obtain ⟨htm, htl, -⟩ := hs.tip_linked ht
          exact ⟨hl, not_workLess_trans ((not_below_iff ht).mp hnb) (hs.not_workLess_anc htm htl ha)⟩
      · have hqm : q ∈ s.index.mapBlockIndex := by
          rw [← hindex]
          exact hq
        have hl' : (s.status q).nChainTx ≠ 0 := by
          rw [← hcut.frame.nChainTx]
          exact hl
        have hv := (hs.received q hqm (hs.links.linked q hqm hl').1).trans (hcut.frame.nValid q)
        have hf' : (s₂.status q).failed = false := hf
        refine (hmem q).mpr (Or.inl (hcut.mem_readded.mpr ⟨hqm, ?_, hl', (hbelow q).mp hnb⟩))
        rw [BlockStatus.isValid, hf', decide_eq_true hv]
        rfl
      · have ha' : s₂.chainActive.contains s₂.index a = true := ha
        rw [hindex] at ha'
        exact (hcut.chain a ha').1

/-! ## `ReconsiderBlock` -/

theorem mem_compared : q ∈ s.compared p ↔ q ∈ s.reconsidered p ∧ BLOCK_VALID_TRANSACTIONS ≤ (s.status q).nValid ∧
    (s.status q).nChainTx ≠ 0 := by
  unfold compared cleared
  rw [List.mem_filter]
  refine and_congr_right fun hq => ?_
  simp [hq, BlockStatus.isValid, BlockStatus.clearFailed, BlockStatus.failed]

theorem frame_cleared (s : ChainState) (p : Ptr) : Frame s (s.cleared p) := by
  refine ⟨rfl, rfl, fun q => ?_, fun q => ?_, fun q => ?_, fun q => ?_, fun q => ?_⟩ <;>
    unfold cleared <;> dsimp only <;> split <;> rfl

theorem reconsider_cand (heq : s.reconsiderBlock p = some s') : q ∈ s'.setBlockIndexCandidates ↔
    q ∈ s.setBlockIndexCandidates ∨ (q ∈ s.compared p ∧ ∃ t, s.tip = some t ∧ s.workLess t q = true) := by
  unfold reconsiderBlock at heq
  cases ht : s.tip with
  | none =>
    rw [ht] at heq
    simp only [Option.ite_none_right_eq_some, Option.some.injEq] at heq
    obtain ⟨-, rfl⟩ := heq
    refine ⟨Or.inl, ?_⟩
    rintro (h | ⟨-, t, h, -⟩)
    · exact h
    · cases h
  | some t =>
    rw [ht] at heq
    cases heq
    obtain ⟨c, hc, hmem⟩ := foldl_insertCandidate ((s.compared p).filter ((s.cleared p).workLess t)) (s.cleared p)
    rw [hc]
    refine (hmem q).trans ?_
    rw [List.mem_filter, (frame_cleared s p).workLess, or_comm]
    simp only [Option.some.injEq, exists_eq_left']
    rfl

theorem frame_reconsider (heq : s.reconsiderBlock p = some s') : Frame s s' := by
  obtain ⟨hidx, -, hunl, hst, -⟩ := reconsider_frame heq
  refine ⟨hidx, hunl, fun q => ?_, fun q => ?_, fun q => ?_, fun q => ?_, fun q => ?_⟩ <;> rw [hst] <;> split <;> rfl

theorem reconsider_below (heq : s.reconsiderBlock p = some s') : s'.Below q ↔ s.Below q := by
  unfold Below tip
  rw [(reconsider_frame heq).2.1]
  simp only [(frame_reconsider heq).workLess]

theorem Consistent.reconsider (h : Consistent src s) (hp : p ∈ s.index.mapBlockIndex)
    (heq : s.reconsiderBlock p = some s') : Consistent src s' := by
  obtain ⟨-, hchain, -, -, -⟩ := reconsider_frame heq
  have hframe := frame_reconsider heq
  refine h.of_frame hframe (wellFormed_reconsider h.wf heq) (fun a ha => ?_) (fun q hq => ?_)
  · rw [hchain] at ha
    obtain ⟨hf, hl, hv⟩ := h.chain a ha
    have ham : a ∈ s.index.mapBlockIndex := by
      rcases h.wf.active.tip_cases with ⟨hc, -⟩ | ⟨t, ht, -, htip⟩
      · rw [hc] at ha
        cases ha
      · exact s.index.rooted.anc_mem ht ((h.wf.active.contains_iff htip).mp ha)
    refine ⟨?_, hl, hv.imp_right fun hv => hv.trans (hframe.nValid a)⟩
    rw [Bool.eq_false_iff]
    intro hf'
    rw [((reconsider_flags hp heq ham).1.mp hf').1] at hf
    cases hf
  · rw [reconsider_below heq]
    rcases (reconsider_cand heq).mp hq with hq | ⟨hq, t, ht, hlt⟩
    · exact h.sound q hq
    · exact ⟨(mem_compared.mp hq).2.2, (not_below_iff ht).mpr (workLess_asymm hlt)⟩

/-! ## Runs -/

theorem step_activate {fuel : Nat} (horc : orc.NoErrors) (h : Consistent src s)
    (heq : NodeOp.step src s (.activateBestChain orc fuel) = some s') : activateBestChain orc fuel s = .done s' := by
  cases hres : activateBestChain orc fuel s with
  | done s₁ =>
    simp only [NodeOp.step, hres, Option.some.injEq] at heq
    rw [heq]
  | failed s₁ => exact absurd hres (activateBestChain_not_failed horc h)
  | aborted => simp [NodeOp.step, hres] at heq
  | running => simp [NodeOp.step, hres] at heq

theorem step_consistent {op : NodeOp} (h : Consistent src s) (hsane : op.Sane src s) (heq : op.step src s = some s') :
    Consistent src s' := by
  cases op with
  | header new hash =>
    cases heq
    rcases acceptHeader_cases src s new hash with heq | ⟨-, -, ha⟩
    · rw [heq]
      exact h
    · exact h.added ha (step_sourceInv (a := .header new hash) h.source) hsane
  | data hash =>
    cases heq
    rcases acceptData_cases src s hash with heq | ⟨p, hp, hh, hf, hd, hlen, hpar, heq⟩
    · rw [heq]
      exact h
    · rw [heq]
      exact h.received_data hp hh hf hd hlen hpar (hsane p hp hh)
  | activateBestChain orc fuel =>
    exact activateBestChain_consistent hsane h (step_activate hsane h heq)
  | invalidateBlock orc p =>
    simp only [NodeOp.step, Option.ite_none_right_eq_some, Option.map_eq_some_iff] at heq
    obtain ⟨-, ⟨ok, s₁⟩, hres, rfl⟩ := heq
    exact (invalidateBlock_spec hsane h hres).2.1
  | reconsiderBlock p =>
    simp only [NodeOp.step, Option.ite_none_right_eq_some] at heq
    exact h.reconsider heq.1 heq.2

end ChainState

open ChainState

/-- Each operation of a run from `s` meets the condition in the state it starts from. -/
def RunMeets (src : BlockSource) (P : ChainState → NodeOp → Prop) : ChainState → List NodeOp → Prop
  | _, [] => True
  | s, op :: ops => P s op ∧ ∀ s', op.step src s = some s' → RunMeets src P s' ops

theorem run_rule {src : BlockSource} {P : ChainState → NodeOp → Prop} {I : ChainState → Prop}
    (hstep : ∀ s op s', I s → P s op → op.step src s = some s' → I s') : ∀ {ops : List NodeOp} {s s' : ChainState},
    I s → RunMeets src P s ops → ops.foldlM (NodeOp.step src) s = some s' → I s'
  | [], s, s', hI, _, hrun => by
    cases hrun
    exact hI
  | op :: ops, s, s', hI, ⟨hP, hrest⟩, hrun => by
    rw [List.foldlM_cons, Option.bind_eq_bind, Option.bind_eq_some_iff] at hrun
    obtain ⟨s₁, h₁, hrun⟩ := hrun
    exact run_rule hstep (hstep s op s₁ hI hP h₁) (hrest s₁ h₁) hrun

/-- A run without wraps and system errors. -/
abbrev SaneRun (src : BlockSource) (ops : List NodeOp) : Prop :=
  RunMeets src (fun s op => op.Sane src s) ChainState.init ops

theorem run_consistent {src : BlockSource} {ops : List NodeOp} {s : ChainState} (hsane : SaneRun src ops)
    (hrun : runNode src ops = some s) : Consistent src s :=
  run_rule (fun _ _ _ h hp heq => step_consistent h hp heq) (.init src) hsane hrun

/-! ## The best chain -/

/-- The path to the entry has data and is not failed. -/
def ChainState.PathOk (s : ChainState) (q : Ptr) : Prop :=
  ∀ a, s.index.IsAnc a q → (s.status a).haveData = true ∧ (s.status a).failed = false

/-- **Best chain.** From every state of a run the loop of `ActivateBestChain` ends whatever `ConnectBlock` says, and the
path to the tip is checked and not failed. When `ConnectBlock` says the same of a block each time, the active chain is
valid and the candidates are complete, no entry whose path has data and is not failed has more work than the tip. -/
theorem activateBestChain_best {src : BlockSource} {ops : List NodeOp} {s : ChainState} {orc : Oracle}
    (hsane : SaneRun src ops) (hrun : runNode src ops = some s) (horc : orc.NoErrors) :
    ∃ s', (∀ fuel, s.rank < fuel → activateBestChain orc fuel s = .done s') ∧ (s.tip ≠ none → s'.tip ≠ none) ∧
      (∀ tip, s'.tip = some tip → tip ∈ s'.index.mapBlockIndex ∧ s'.PathOk tip ∧
        ∀ a, s'.index.IsAnc a tip → s'.index.pprev a = none ∨ BLOCK_VALID_SCRIPTS ≤ (s'.status a).nValid) ∧
      ∀ valid, orc.Steady valid → (∀ a, s.chainActive.contains s.index a = true → valid a = true) → s.Complete →
        ∀ q ∈ s'.index.mapBlockIndex, s'.PathOk q → s'.AtMostTip q := by
  have hs := run_consistent hsane hrun
  obtain ⟨s', hdone⟩ := activateBestChain_ends horc hs
  -- one invariant for the tip, and one for each verdict
  obtain ⟨s₁, hs₁, ⟨htip, href⟩, hexit⟩ := activateBestChain_rule horc
    (I := fun s₁ => (s.tip ≠ none → s₁.tip ≠ none) ∧ ∀ valid, orc.Steady valid →
      (∀ a, s.chainActive.contains s.index a = true → valid a = true) → s.Complete → ∃ r, Reference valid s₁ r)
    (fun s₁ s₂ hI hc => ⟨fun h => hc.tip_ne_none (hI.1 h), fun valid hv ha hcomp =>
      Reference.continues (hI.2 valid hv ha hcomp) hv hc⟩)
    hs ⟨fun h => h, fun valid _ ha hcomp => ⟨s.tip, .of_tip hs hcomp ha⟩⟩ (hdone _ (Nat.lt_succ_self _))
  have hs' := hexit.consistent hs₁
  refine ⟨s', hdone, fun h => hexit.tip_ne_none (htip h), fun tip ht => ?_, fun valid hv ha hcomp q hq hpath => ?_⟩
  · obtain ⟨hm, hl, -⟩ := hs'.tip_linked ht
    have hchain := fun a ha => hs'.chain a ((hs'.wf.active.contains_iff ht).mpr ha)
    exact ⟨hm, fun a ha => ⟨(hs'.linked_anc hm hl ha).2, (hchain a ha).1⟩, fun a ha => (hchain a ha).2.2⟩
  · obtain ⟨r, hr⟩ := href valid hv ha hcomp
    have hl : (s'.status q).nChainTx ≠ 0 := (hs'.links.linked_iff q hq).mpr fun a ha => (hpath a ha).1
    exact hexit.most_work hr hq hl (hpath q (.refl q)).2

/-- Two branches on the genesis block 0: blocks 1 and 2, and blocks 3 and 4 with more work. -/
def forkSource : BlockSource where
  block h := ⟨⟨h, 7, if h = 3 then 0 else h - 1, 0, 0, if h = 4 then 0x203fffff else 0x207fffff, 0⟩, [⟨0, 1, [], [], 0⟩]⟩
  hash_block _ := rfl
  hashGenesisBlock := 0

theorem Oracle.succeeds_steady : Oracle.succeeds.Steady fun _ => true := ⟨fun _ _ => rfl, fun _ _ => rfl⟩

/-- The genesis block and block 1 arrive. -/
def twoBlocks : List NodeOp := [.header 0 0, .data 0, .header 1 1, .data 1]

theorem twoBlocks_sane : SaneRun forkSource twoBlocks := by
  refine ⟨?_, ?_⟩
  · unfold NodeOp.Sane TreeBound
    decide
  · rintro _ ⟨⟩
    refine ⟨?_, ?_⟩
    · unfold NodeOp.Sane
      decide
    · rintro _ ⟨⟩
      refine ⟨?_, ?_⟩
      · unfold NodeOp.Sane TreeBound
        decide
      · rintro _ ⟨⟩
        refine ⟨?_, fun _ _ => trivial⟩
        unfold NodeOp.Sane
        decide

theorem twoBlocks_isSome : (runNode forkSource twoBlocks).isSome := by decide

theorem activateBestChain_best_two : ∃ s s', runNode forkSource twoBlocks = some s ∧
    (∀ fuel, s.rank < fuel → activateBestChain .succeeds fuel s = .done s') ∧
    ∀ q ∈ s'.index.mapBlockIndex, s'.PathOk q → s'.AtMostTip q := by
  have hrun : runNode forkSource twoBlocks = some ((runNode forkSource twoBlocks).get twoBlocks_isSome) :=
    (Option.some_get _).symm
  have hcand : ∀ q ∈ ((runNode forkSource twoBlocks).get twoBlocks_isSome).index.mapBlockIndex,
      q ∈ ((runNode forkSource twoBlocks).get twoBlocks_isSome).setBlockIndexCandidates := by decide
  obtain ⟨s', hdone, -, -, hbest⟩ :=
    activateBestChain_best twoBlocks_sane hrun Oracle.succeeds_steady.noErrors
  refine ⟨_, s', hrun, hdone, hbest _ Oracle.succeeds_steady (fun _ _ => rfl) fun q hq _ _ _ => hcand q hq⟩

/-- Blocks 1 and 2 become the active chain; then blocks 3 and 4 arrive. -/
def forkRun : List NodeOp :=
  twoBlocks ++ [.header 2 2, .data 2, .activateBestChain .succeeds 100, .header 3 3, .data 3, .header 4 4, .data 4]

theorem forkRun_isSome : (runNode forkSource forkRun).isSome := by decide

/-- Block 4 is invalid, and block 1 is not valid any more. -/
def changedVerdict : Oracle := ⟨fun _ p => if p = 1 ∨ p = 4 then .invalid else .valid, fun _ _ => true⟩

/-- When block 4 turns out to be invalid and then block 1 is rejected, the loop ends at the genesis block, although
block 3 has more work. -/
theorem activateBestChain_not_best : ¬ ∀ src ops s orc fuel s', runNode src ops = some s → s.Complete →
    orc.NoErrors → activateBestChain orc fuel s = .done s' →
    ∀ q ∈ s'.index.mapBlockIndex, s'.PathOk q → s'.AtMostTip q := by
  intro hall
  have hcand : ∀ q ∈ ((runNode forkSource forkRun).get forkRun_isSome).index.mapBlockIndex,
      (∃ t ∈ ((runNode forkSource forkRun).get forkRun_isSome).tip,
        ((runNode forkSource forkRun).get forkRun_isSome).workLess q t = true) ∨
      q ∈ ((runNode forkSource forkRun).get forkRun_isSome).setBlockIndexCandidates := by decide
  have hend : (match activateBestChain changedVerdict 10 ((runNode forkSource forkRun).get forkRun_isSome) with
      | .done s' => decide (s'.tip = some 0 ∧ 3 ∈ s'.index.mapBlockIndex ∧ s'.index.work 0 < s'.index.work 3 ∧
        ∀ a ∈ s'.index.path 3, (s'.status a).haveData = true ∧ (s'.status a).failed = false)
      | _ => false) = true := by decide
  cases hres : activateBestChain changedVerdict 10 ((runNode forkSource forkRun).get forkRun_isSome) with
  | done s' =>
    rw [hres] at hend
    obtain ⟨htip, hmem, hwork, hpath⟩ := of_decide_eq_true hend
    obtain ⟨t, ht, hle⟩ := hall forkSource forkRun _ changedVerdict 10 s' (Option.some_get _).symm
      (fun q hq _ _ hb => (hcand q hq).resolve_left fun ⟨t, ht, hlt⟩ => hb ⟨t, ht, hlt⟩)
      ⟨fun _ p => by unfold changedVerdict; dsimp only; split <;> simp, fun _ _ => rfl⟩ hres 3 hmem
      (fun a ha => hpath a ((BlockIndex.mem_path hmem).mpr ha))
    rw [htip] at ht
    cases ht
    omega
  | failed s' =>
    rw [hres] at hend
    cases hend
  | aborted =>
    rw [hres] at hend
    cases hend
  | running =>
    rw [hres] at hend
    cases hend

end DigiWage
