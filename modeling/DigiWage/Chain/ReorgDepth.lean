import DigiWage.Chain.Difficulty
import DigiWage.Chain.Selection
import DigiWage.Lib.Run

/-!
# The depth of a reorganisation

`-maxreorg` is the maximum depth of a reorganisation. `ContextualCheckBlockHeader` compares it with how far the block
itself is below the tip, and `AcceptBlock` with how long the fork is; neither looks at how far below the tip the fork
leaves the active chain, when a block with more work than the tip comes on the fork.

* `Delivery.step`: a block arrives, passes through `AcceptBlock`, and the best chain is activated.
* `Settled`: what holds between the arrivals of valid blocks. Only the tip is a candidate.
-/

namespace DigiWage

open Lib ChainState

/-- A block that arrives: what the checks ask of the node then, the coins of the active chain, the address for a new
entry, and the hash of the block. -/
structure Delivery where
  env : AcceptEnv
  pcoinsTip : CoinsView
  new : Ptr
  hash : Uint256

/-- `AcceptBlock` for a block that is checked, and `ActivateBestChain` unless it failed. There is no state after it when
the address is taken, an assertion fails, or the rounds do not suffice. -/
def Delivery.step (src : BlockSource) (params : ConsensusParams) (s : ChainState) (d : Delivery) : Option ChainState :=
  if d.new ∈ s.index.mapBlockIndex then none
  else
    match acceptBlock src params d.env d.pcoinsTip s d.new (src.block d.hash) true with
    | none => none
    | some (.error _, s₁) => some s₁
    | some (.ok _, s₁) =>
      match activateBestChain d.env.orc d.env.fuel s₁ with
      | .done s₂ => some s₂
      | .failed s₂ => some s₂
      | .aborted => none
      | .running => none

namespace ChainState

/-- The number of blocks of the active chain of `s` that are not on the active chain of `s'`. -/
def disconnected (s s' : ChainState) : Nat := s.chainActive.vChain.countP fun a => decide (a ∉ s'.chainActive.vChain)

/-- How far below the tip the branch of the entry leaves the active chain. -/
def forkDepth (s : ChainState) (p : Ptr) : Nat :=
  match s.tip, s.chainActive.findFork s.index p with
  | some t, some f => s.index.nHeight t - s.index.nHeight f
  | _, _ => 0

/-- The work of a block on `pindexPrev`, as a number. -/
def newWork (s : ChainState) (pindexPrev : Ptr) (nBits : Nat) : Nat :=
  ((s.index.entry pindexPrev).nChainWork + getBlockProof nBits).toNat

end ChainState

namespace Delivery

/-- A valid proof-of-stake block, with `-maxreorg` as given: it passes its checks, it can be connected, it adds to the
work of its parent, and no counter wraps. -/
structure Valid (src : BlockSource) (nMaxReorgDepth : Int) (s : ChainState) (d : Delivery) : Prop where
  depth : d.env.nMaxReorgDepth = nMaxReorgDepth
  stake : (src.block d.hash).isProofOfStake = true
  checked : ∀ pindexPrev, d.env.contextualCheckBlock (src.block d.hash) pindexPrev = .ok ()
  connects : d.env.orc.Steady fun _ => true
  work : ∀ pindexPrev, s.index.find (src.block d.hash).hashPrevBlock = some pindexPrev →
    s.index.work pindexPrev < s.newWork pindexPrev (src.block d.hash).nBits
  bound : TreeBound src (s.index.add d.new (src.block d.hash).toCBlockHeader)

/-- The block has more work than the tip, or as much without being received later. -/
def Outweighs (src : BlockSource) (s : ChainState) (d : Delivery) (pindexPrev tip : Ptr) : Prop :=
  s.index.work tip < s.newWork pindexPrev (src.block d.hash).nBits ∨
    (s.newWork pindexPrev (src.block d.hash).nBits = s.index.work tip ∧
      s.nBlockSequenceId ≤ (s.status tip).nSequenceId)

/-- A block that outweighs the tip is higher than the tip, or its branch leaves the active chain not too far below. -/
def Harmless (src : BlockSource) (nMaxReorgDepth : Int) (s : ChainState) (d : Delivery) : Prop :=
  ∀ pindexPrev tip, s.index.find (src.block d.hash).hashPrevBlock = some pindexPrev → s.tip = some tip →
    d.Outweighs src s pindexPrev tip →
    s.index.nHeight tip < s.index.nHeight pindexPrev + 1 ∨ (s.forkDepth pindexPrev : Int) < nMaxReorgDepth

end Delivery

/-! ## The fork -/

namespace ChainState

variable {src : BlockSource} {s s' s₁ : ChainState} {b p q t f : Ptr}

theorem countP_ofTip {i i' : BlockIndex} (hp : p ∈ i.mapBlockIndex) (hq : q ∈ i'.mapBlockIndex) (hfp : i.IsAnc f p)
    (hiff : ∀ a, i.IsAnc a p → (i'.IsAnc a q ↔ i.IsAnc a f)) :
    ((CChain.ofTip i p).vChain.countP fun a => decide (a ∉ (CChain.ofTip i' q).vChain)) =
      i.nHeight p - i.nHeight f := by
  rw [← i.rooted.countP_path hp (f := fun a => decide (some a ∉ (CChain.ofTip i' q).vChain)) hfp]
  · unfold CChain.ofTip BlockIndex.path
    rw [List.countP_map, List.countP_reverse]
    rfl
  · intro a ha
    have hmem : some a ∈ (CChain.ofTip i' q).vChain ↔ i'.IsAnc a q := by
      rw [← BlockIndex.mem_path hq]
      simp [CChain.ofTip]
    rw [decide_eq_true_eq]
    exact not_congr (hmem.trans (hiff a ha))

theorem disconnected_self (h : s'.chainActive = s.chainActive) : disconnected s s' = 0 := by
  unfold disconnected
  rw [h, List.countP_eq_zero]
  intro a ha
  simp [ha]

theorem exists_fork (hs : Consistent src s) (ht : s.tip = some t) (hp : p ∈ s.index.mapBlockIndex) :
    ∃ f, s.index.IsAnc f t ∧ s.index.IsAnc f p ∧ (∀ a, s.index.IsAnc a t → s.index.IsAnc a p → s.index.IsAnc a f) ∧
      s.forkDepth p = s.index.nHeight t - s.index.nHeight f := by
  obtain ⟨htm, hchain⟩ := hs.wf.active.of_tip ht
  rcases CChain.findFork_ofTip htm hp with ⟨f, hf, hft, hfp, hmax⟩ | ⟨-, hapart⟩
  · refine ⟨f, hft, hfp, hmax, ?_⟩
    unfold forkDepth
    rw [ht, hchain, hf]
  · obtain ⟨g, hgt, hgp⟩ := hs.common_root htm hp
    exact absurd hgt (hapart g hgp)

theorem walkFork_ok {env : AcceptEnv} {pivInputs : List CTxIn} : ∀ p ∈ s.index.mapBlockIndex, ∀ (n : Nat) (bl : CBlock),
    s.readBlockFromDisk src p = some bl → walkFork src env s pivInputs n (s.index.path p) bl = some (.ok ()) →
    ∃ f, s.index.IsAnc f p ∧ s.chainActive.contains s.index f = true ∧ s.index.path p = s.branch p ++ s.index.path f ∧
      (∀ q ∈ s.branch p, spendsAny pivInputs (src.block (s.index.entry q).hash).vtx = false) ∧
      ((n : Int) < env.nMaxReorgDepth →
        ((n + (s.index.nHeight p - s.index.nHeight f) : Nat) : Int) < env.nMaxReorgDepth) := by
  refine s.index.rooted.induct_on fun p hp ih n bl hread hwalk => ?_
  cases hc : s.chainActive.contains s.index p with
  | true =>
    obtain ⟨l, hl⟩ := CChain.path_head hp
    have hbranch : s.branch p = [] := by
      unfold branch
      rw [hl, List.takeWhile_cons_of_neg (by rw [hc]; exact Bool.false_ne_true)]
    refine ⟨p, .refl p, hc, by rw [hbranch, List.nil_append], ?_, by rw [Nat.sub_self]; exact id⟩
    rw [hbranch]
    exact fun q hq => absurd hq List.not_mem_nil
  | false =>
    cases hpar : s.index.pprev p with
    | none =>
      rw [s.index.path_none hp hpar] at hwalk
      simp only [walkFork, hc, Bool.false_eq_true, if_false] at hwalk
      split at hwalk
      · cases hwalk
      · split at hwalk <;> cases hwalk
    | some q =>
      have hq := s.index.rooted.mem hp hpar
      have hsucc := s.index.rooted.succ hp hpar
      obtain ⟨l, hl⟩ := CChain.path_head hq
      have hpath := s.index.path_some hp hpar
      have hbranch : s.branch p = p :: s.branch q := by
        unfold branch
        rw [hpath, List.takeWhile_cons_of_pos (by rw [hc]; rfl)]
      have hbl : bl = src.block (s.index.entry p).hash := by
        unfold readBlockFromDisk at hread
        split at hread
        · cases hread
          rfl
        · cases hread
      rw [hpath] at hwalk
      unfold walkFork at hwalk
      simp only [hc, Bool.false_eq_true, if_false] at hwalk
      split at hwalk
      · cases hwalk
      · rename_i hlimit
        split at hwalk
        · cases hwalk
        · rename_i hspends
          rw [hl] at hwalk
          dsimp only at hwalk
          split at hwalk
          · cases hwalk
          · rename_i bl' hread'
            rw [← hl] at hwalk
            obtain ⟨f, hf, hfc, hpath', hnot, hlt⟩ := ih q hpar (n + 1) bl' hread' hwalk
            have hle := s.index.rooted.anc_le hq hf
            refine ⟨f, .up hpar hf, hfc, by rw [hpath, hbranch, hpath', List.cons_append], ?_, fun hn => ?_⟩
            · rw [hbranch]
              intro r hr
              rcases List.mem_cons.mp hr with rfl | hr
              · rw [hbl] at hspends
                exact Bool.eq_false_iff.mpr hspends
              · exact hnot r hr
            · have := hlt (by omega)
              omega

theorem checkStakeInputs_ok {env : AcceptEnv} {pcoinsTip : CoinsView} {block : CBlock} {stakeTxIn : CTransaction}
    (hs : Consistent src s) (hp : p ∈ s.index.mapBlockIndex) (hpos : 0 < env.nMaxReorgDepth)
    (h : checkStakeInputs src env pcoinsTip s block stakeTxIn p = some (.ok ())) : (s.status p).haveData = true ∧
      ∃ f, s.index.IsAnc f p ∧ s.chainActive.contains s.index f = true ∧
        ((s.index.nHeight p - s.index.nHeight f : Nat) : Int) < env.nMaxReorgDepth := by
  unfold checkStakeInputs at h
  dsimp only at h
  split at h
  · cases h
  · by_cases htip : s.tip = some p
    · obtain ⟨-, hl, -⟩ := hs.tip_linked htip
      refine ⟨(hs.links.linked p hp hl).1, p, .refl p, (hs.wf.active.contains_iff htip).mpr (.refl p), ?_⟩
      rw [Nat.sub_self]
      exact hpos
    · have hfork : (s.tip != some p) = true := by simpa using htip
      rw [if_pos hfork] at h
      cases hread : s.readBlockFromDisk src p with
      | none =>
        rw [hread] at h
        cases h
      | some bl =>
        rw [hread] at h
        dsimp only at h
        split at h
        · cases h
        · cases h
        · rename_i hwalk
          obtain ⟨f, hf, hfc, -, -, hlt⟩ := walkFork_ok p hp 0 bl hread hwalk
          have hlt := hlt hpos
          rw [Nat.zero_add] at hlt
          refine ⟨?_, f, hf, hfc, hlt⟩
          unfold readBlockFromDisk at hread
          split at hread
          · assumption
          · cases hread

/-! ## Between the arrivals -/

/-- All blocks that arrived are valid and are linked. -/
structure Regular (src : BlockSource) (s : ChainState) : Prop where
  cons : Consistent src s
  complete : s.Complete
  linked : ∀ p ∈ s.index.mapBlockIndex, (s.status p).haveData = true → (s.status p).nChainTx ≠ 0
  unmarked : ∀ p ∈ s.index.mapBlockIndex, (s.status p).failed = false
  works : ∀ p ∈ s.index.mapBlockIndex, ∀ q, s.index.pprev p = some q →
    (s.index.entry p).nChainWork = (s.index.entry q).nChainWork + getBlockProof (s.index.entry p).nBits

/-- Only the tip is a candidate. -/
structure Settled (src : BlockSource) (s : ChainState) : Prop extends Regular src s where
  only : ∀ q ∈ s.setBlockIndexCandidates, s.tip = some q

/-- The block `b` arrived, and may become the tip. -/
structure Ready (src : BlockSource) (b : Ptr) (s : ChainState) : Prop extends Regular src s where
  cand : ∀ q ∈ s.setBlockIndexCandidates, s.tip = some q ∨ q = b
  path : b ∈ s.setBlockIndexCandidates → ∀ p, s.index.IsAnc p b → p ≠ b →
    ∃ t, s.tip = some t ∧ s.index.work p ≤ s.index.work t

theorem Settled.work_le (h : Settled src s) (hp : p ∈ s.index.mapBlockIndex) (hl : (s.status p).nChainTx ≠ 0) :
    ∃ t, s.tip = some t ∧ s.index.work p ≤ s.index.work t := by
  by_cases hb : s.Below p
  · obtain ⟨t, ht, hlt⟩ := hb
    exact ⟨t, ht, work_le_of_not_workLess (workLess_asymm hlt)⟩
  · exact ⟨p, h.only p (h.complete p hp hl (h.unmarked p hp) hb), Nat.le_refl _⟩

theorem Settled.ready (h : Settled src s) (b : Ptr) : Ready src b s := by
  refine ⟨h.toRegular, fun q hq => Or.inl (h.only q hq), fun hb p hp hne => ⟨b, h.only b hb, ?_⟩⟩
  obtain ⟨hbm, hl, -⟩ := h.cons.tip_linked (h.only b hb)
  exact Nat.le_of_lt (h.cons.work_anc hbm hl hp hne)

theorem Purge.unmarked_all (h : Purge s s') (hm : ∀ p ∈ s.index.mapBlockIndex, (s.status p).failed = false)
    (hq : q ∈ s.index.mapBlockIndex) : (s'.status q).failed = false :=
  h.unmarked hq fun _ ha => hm _ (s.index.rooted.anc_mem hq ha)

/-- Where the loop of `ActivateBestChain` can be when `b` may become the tip of `s`. -/
structure Moved (s : ChainState) (b : Ptr) (s' : ChainState) : Prop where
  frame : Frame s s'
  unmarked : ∀ q ∈ s.index.mapBlockIndex, (s'.status q).failed = false
  cand : ∀ q ∈ s'.setBlockIndexCandidates, q ∈ s.setBlockIndexCandidates
  tip : s'.tip = s.tip ∨ (s'.tip = some b ∧ ∀ t, s.tip = some t → s.workLess t b = true)

namespace Moved

variable {s₀ : ChainState} {m : Ptr} {orc : Oracle}

theorem refl (h : Ready src b s) : Moved s b s := ⟨.refl s, h.unmarked, fun _ hq => hq, Or.inl rfl⟩

theorem purge (h : Moved s b s₀) (hp : Purge s₀ s') : Moved s b s' := by
  refine ⟨h.frame.trans hp.frame, fun q hq => ?_, fun q hq => h.cand q (hp.cand q hq), by rw [hp.tip]; exact h.tip⟩
  rw [← h.frame.index] at hq
  refine hp.unmarked_all (fun p hp => ?_) hq
  rw [h.frame.index] at hp
  exact h.unmarked p hp

theorem of_cand (hb : Ready src b s) (h : Moved s b s₀) (hs : Consistent src s₀) (hm : m ∈ s₀.setBlockIndexCandidates) :
    s.tip = some m ∨ (m = b ∧ ∀ t, s.tip = some t → s.workLess t b = true) := by
  rcases hb.cand m (h.cand m hm) with hm' | rfl
  · exact Or.inl hm'
  · by_cases hm' : s.tip = some m
    · exact Or.inl hm'
    · refine Or.inr ⟨rfl, fun t ht => ?_⟩
      rcases h.tip with htip | ⟨-, hless⟩
      · have hnot := (not_below_iff (htip.trans ht)).mp (hs.sound m hm).2
        rw [h.frame.workLess] at hnot
        have hne : t ≠ m := by
          rintro rfl
          exact hm' ht
        exact (workLess_total hne).resolve_right (by rw [hnot]; exact Bool.false_ne_true)
      · exact hless t ht

theorem climb (h : Moved s b s₀) (hl : Lowered src s₀ s₁) (hc : Climb src orc s₁ s') (htip : s'.tip = some p)
    (hp : s.tip = some p ∨ (p = b ∧ ∀ t, s.tip = some t → s.workLess t b = true)) : Moved s b s' := by
  refine ⟨(h.frame.trans hl.frame).trans hc.frame, fun q hq => ?_, fun q hq => ?_, ?_⟩
  · rw [hc.failed, hl.status]
    exact h.unmarked q hq
  · have hq₁ := ((hc.cand q).mp hq).1
    rw [hl.cand] at hq₁
    exact h.cand q hq₁
  · rw [htip]
    rcases hp with hp | ⟨rfl, hless⟩
    · exact Or.inl hp.symm
    · exact Or.inr ⟨rfl, hless⟩

theorem continues (hb : Ready src b s) (horc : orc.Steady fun _ => true) (h : Moved s b s₀) (hs : Consistent src s₀)
    (hc : Continues src orc s₀ s') : Moved s b s' := by
  obtain ⟨s₂, s₁, m, hpurge, hmost, hother, hlow, hend⟩ := hc
  have hs₂ := hpurge.consistent hs
  have h₂ := h.purge hpurge
  have hm := h₂.of_cand hb hs₂ hmost.mem
  cases hend with
  | invalid s₃ p n climb parent anc unmarked verdict fails =>
    have := horc.of_invalid verdict
    cases this
  | better p climb tip anc work =>
    refine h₂.climb hlow climb tip (Or.inr ?_)
    rw [hlow.index, h₂.frame.index] at anc work
    rcases hm with hm | ⟨rfl, hless⟩
    · -- the old tip is not better than the new block
      rcases h₂.tip with htip | ⟨htip, hless⟩
      · exact absurd (htip.trans hm) hother
      · have hnot := (not_below_iff htip).mp (hs₂.sound m hmost.mem).2
        rw [h₂.frame.workLess, hless m hm] at hnot
        cases hnot
    · refine ⟨?_, hless⟩
      by_contra hne
      obtain ⟨t, ht, hle⟩ := hb.path (h₂.cand m hmost.mem) p anc hne
      rcases h₂.tip with htip | ⟨htip, -⟩
      · have := work t (htip.trans ht)
        omega
      · exact hother htip

theorem exits (hb : Ready src b s) (h : Moved s b s₀) (hs : Consistent src s₀) (he : Exits src orc s₀ s') : Moved s b s' := by
  cases he with
  | empty purge cand => exact h.purge purge
  | stays m purge most tip => exact h.purge purge
  | reaches s₂ s₁ m purge most lowered climb tip =>
    exact (h.purge purge).climb lowered climb tip ((h.purge purge).of_cand hb (purge.consistent hs) most.mem)

end Moved

theorem Exits.only {orc : Oracle} (h : Exits src orc s s') (hs : Consistent src s) :
    ∀ q ∈ s'.setBlockIndexCandidates, s'.tip = some q := by
  have hs' := h.consistent hs
  -- a candidate is not below the tip, and the tip is the greatest
  have honly : ∀ m, s'.tip = some m → (∀ q ∈ s'.setBlockIndexCandidates, s'.workLess m q = false) →
      ∀ q ∈ s'.setBlockIndexCandidates, s'.tip = some q := by
    intro m hm hmax q hq
    by_contra hne
    have hqm : q ≠ m := by
      rintro rfl
      exact hne hm
    have hnot := (not_below_iff hm).mp (hs'.sound q hq).2
    rcases workLess_total hqm with hlt | hlt
    · rw [hnot] at hlt
      cases hlt
    · rw [hmax q hq] at hlt
      cases hlt
  cases h with
  | empty purge cand =>
    intro q hq
    rw [cand] at hq
    cases hq
  | stays m purge most tip => exact honly m tip most.greatest
  | reaches s₀ s₁ m purge most lowered climb tip =>
    refine honly m tip fun q hq => ?_
    rw [(lowered.frame.trans climb.frame).workLess]
    refine most.greatest q ?_
    rw [← lowered.cand]
    exact ((climb.cand q).mp hq).1

theorem Ready.activate {orc : Oracle} {fuel : Nat} (h : Ready src b s) (horc : orc.Steady fun _ => true)
    (hdone : activateBestChain orc fuel s = .done s') : Settled src s' ∧ Moved s b s' := by
  obtain ⟨s₀, hs₀, ⟨hcons, hmoved⟩, hexit⟩ := activateBestChain_rule (I := fun s₁ => Consistent src s₁ ∧ Moved s b s₁)
    horc.noErrors (fun s₁ s₂ hI hcont => ⟨hcont.consistent hI.1, hI.2.continues h horc hI.1 hcont⟩) h.cons
    ⟨h.cons, .refl h⟩ hdone
  have hmoved' := hmoved.exits h hcons hexit
  obtain ⟨hcomp, -⟩ := complete_activate h.cons h.complete (fun _ _ => rfl) horc hdone
  have hreg : Regular src s' := by
    refine ⟨hexit.consistent hs₀, hcomp, fun p hp hd => ?_, fun p hp => ?_, ?_⟩
    · rw [hmoved'.frame.index] at hp
      rw [hmoved'.frame.haveData] at hd
      rw [hmoved'.frame.nChainTx]
      exact h.linked p hp hd
    · rw [hmoved'.frame.index] at hp
      exact hmoved'.unmarked p hp
    · rw [hmoved'.frame.index]
      exact h.works
  exact ⟨⟨hreg, hexit.only hs₀⟩, hmoved'⟩

/-! ## A block arrives -/

theorem Settled.init (src : BlockSource) : Settled src ChainState.init := by
  refine ⟨⟨.init src, .init, ?_, ?_, ?_⟩, ?_⟩ <;> intro p hp
  all_goals simp [ChainState.init, BlockIndex.empty] at hp

theorem Settled.added {new : Ptr} {block : CBlockHeader} (h : Settled src s) (ha : Added s new block s')
    (hsrc : SourceInv src s') (hb : TreeBound src s'.index) : Settled src s' := by
  have hentry : ∀ p ∈ s.index.mapBlockIndex, s'.index.entry p = s.index.entry p := by
    intro p hp
    rw [ha.index, BlockIndex.add_entry hp]
  refine ⟨⟨h.cons.added ha hsrc hb, complete_added h.cons h.complete ha, fun p hp hd => ?_, fun p hp => ?_,
    fun p hp q hq => ?_⟩, ?_⟩
  · rcases List.mem_cons.mp (ha.mapBlockIndex ▸ hp) with rfl | hp
    · rw [ha.status_new] at hd
      cases hd
    · rw [ha.status_old p hp] at hd ⊢
      exact h.linked p hp hd
  · rcases List.mem_cons.mp (ha.mapBlockIndex ▸ hp) with rfl | hp
    · rw [ha.status_new]
      rfl
    · rw [ha.status_old p hp]
      exact h.unmarked p hp
  · rcases List.mem_cons.mp (ha.mapBlockIndex ▸ hp) with rfl | hp
    · rw [BlockIndex.pprev, ha.entry_new] at hq
      obtain ⟨hqm, -, -, hwork, -⟩ := BlockIndex.newEntry_some hq
      rw [ha.entry_new, hentry q hqm, hwork, BlockIndex.newEntry_header.2.1]
    · rw [ha.pprev hp] at hq
      rw [hentry p hp, hentry q (s.index.rooted.mem hp hq)]
      exact h.works p hp q hq
  · rw [ha.setBlockIndexCandidates, tip, ha.chainActive]
    exact h.only

theorem Settled.received {hash : Uint256} (h : Settled src s) (hb : b ∈ s.index.mapBlockIndex)
    (hhash : (s.index.entry b).hash = hash) (hnew : (s.status b).haveData = false)
    (hpos : 0 < (src.block hash).vtx.length) (hdata : ∀ q, s.index.pprev b = some q → (s.status q).haveData = true)
    (hwork : ∀ q, s.index.pprev b = some q → s.index.work q < s.index.work b) :
    Ready src b (s.receivedBlockTransactions b (src.block hash).vtx.length) := by
  have hpar : ∀ q, s.index.pprev b = some q → (s.status q).failed = false :=
    fun q hq => h.unmarked q (s.index.rooted.mem hb hq)
  obtain ⟨hlinks, hgrown⟩ := grown_received h.cons hb hhash hnew hpos hpar
  have hcons := h.cons.received_data hb hhash (h.unmarked b hb) hnew hpos hpar hwork
  obtain ⟨hidx, -, hself, hother⟩ := received_frame s b (src.block hash).vtx.length
  obtain ⟨-, -, hself₃, hself₄, hself₅, -⟩ := (s.status b).received_spec (src.block hash).vtx.length
  -- the entries that get data or marks
  have hflags : ∀ q, ((s.receivedBlockTransactions b (src.block hash).vtx.length).status q).failed = (s.status q).failed := by
    intro q
    by_cases hqb : q = b
    · subst hqb
      exact failed_of_flags ⟨(congrArg BlockStatus.failedValid hself).trans hself₄,
        (congrArg BlockStatus.failedChild hself).trans hself₅⟩
    · have hv := congrArg BlockStatus.failedValid (hother q hqb)
      have hc := congrArg BlockStatus.failedChild (hother q hqb)
      exact failed_of_flags ⟨hv, hc⟩
  have hlinked : ∀ q ∈ s.index.mapBlockIndex, q ≠ b →
      ((s.receivedBlockTransactions b (src.block hash).vtx.length).status q).haveData = true →
      (s.status q).nChainTx ≠ 0 := by
    intro q hq hqb hd
    exact h.linked q hq ((congrArg BlockStatus.haveData (hother q hqb)).symm.trans hd)
  refine ⟨⟨hcons, complete_grown h.cons h.complete hgrown, fun q hq hd => ?_, fun q hq => ?_, ?_⟩, fun q hq => ?_,
    fun _ p hp hne => ?_⟩
  · rw [hidx] at hq
    by_cases hqb : q = b
    · subst hqb
      refine (hlinks.nChainTx_local (by rw [hidx]; exact hq)).1.mpr ⟨hd, fun r hr => ?_⟩
      rw [hidx] at hr
      have hlr := h.linked r (s.index.rooted.mem hb hr) (hdata r hr)
      rw [hgrown.old r hlr]
      exact hlr
    · have hlq := hlinked q hq hqb hd
      rw [hgrown.old q hlq]
      exact hlq
  · rw [hidx] at hq
    rw [hflags]
    exact h.unmarked q hq
  · rw [hidx]
    exact h.works
  · rw [hgrown.tip]
    rcases (hgrown.cand q).mp hq with hq | ⟨hz, hl, -⟩
    · exact Or.inl (h.only q hq)
    · refine Or.inr ?_
      by_contra hqb
      have hqm := hcons.wf.candidates q hq
      have hd := (hlinks.linked q hqm hl).1
      rw [hidx] at hqm
      exact hlinked q hqm hqb hd hz
  · rw [hidx] at hp
    obtain ⟨q, hq, hpq⟩ := hp.of_ne hne
    have hqm := s.index.rooted.mem hb hq
    obtain ⟨hlp, -⟩ := h.cons.linked_anc hqm (h.linked q hqm (hdata q hq)) hpq
    rw [hgrown.tip, hidx]
    exact h.work_le (s.index.rooted.anc_mem hqm hpq) hlp

theorem Settled.nSequenceId_received (h : Settled src s) (nVtx : Nat) (hq : s.index.pprev b = some q) (hbq : q ≠ b)
    (hl : (s.status q).nChainTx ≠ 0) :
    ((s.receivedBlockTransactions b nVtx).status b).nSequenceId = s.nBlockSequenceId := by
  have hempty : s.mapBlocksUnlinked = [] := by
    rw [List.eq_nil_iff_forall_not_mem]
    rintro ⟨r, c⟩ hmem
    obtain ⟨hcm, -, hd, hz, -⟩ := h.cons.links.unlinked r c hmem
    exact h.linked c hcm hd hz
  have hpar : (s.setStatus b fun st => st.received nVtx).index.pprev b = some q := hq
  have hlq : ((s.setStatus b fun st => st.received nVtx).status q).nChainTx ≠ 0 := by
    show (Function.update s.status b _ q).nChainTx ≠ 0
    rw [Function.update_of_ne hbq]
    exact hl
  have hlen : (s.setStatus b fun st => st.received nVtx).mapBlocksUnlinked.length = 0 := by
    show s.mapBlocksUnlinked.length = 0
    rw [hempty]
    rfl
  unfold receivedBlockTransactions
  dsimp only
  rw [hpar]
  dsimp only
  rw [if_pos hlq, hlen]
  show ((ChainState.linkEntry _ b).status b).nSequenceId = _
  rw [linkEntry_status, Function.update_self]
  rfl

variable {params : ConsensusParams} {s₂ : ChainState} {d : Delivery} {nMaxReorgDepth : Int}

/-- `s₁` is `s` with an entry `b` for the block, on `p`. -/
structure Entered (src : BlockSource) (s : ChainState) (d : Delivery) (p b : Ptr) (s₁ : ChainState) : Prop where
  settled : Settled src s₁
  chainActive : s₁.chainActive = s.chainActive
  nBlockSequenceId : s₁.nBlockSequenceId = s.nBlockSequenceId
  mem : b ∈ s₁.index.mapBlockIndex
  hash : (s₁.index.entry b).hash = d.hash
  parent : s₁.index.pprev b = some p
  old : ∀ q ∈ s.index.mapBlockIndex, q ∈ s₁.index.mapBlockIndex ∧ s₁.index.entry q = s.index.entry q ∧
    s₁.status q = s.status q ∧ ∀ a, s₁.index.IsAnc a q ↔ s.index.IsAnc a q

theorem addToBlockIndex_nBlockSequenceId (s : ChainState) (new : Ptr) (block : CBlockHeader) :
    (s.addToBlockIndex new block).2.nBlockSequenceId = s.nBlockSequenceId := by
  unfold addToBlockIndex
  split <;> rfl

theorem acceptBlockHeader_nBlockSequenceId {env : AcceptEnv} {new : Ptr} {block : CBlock}
    {r : Except (Option Rejection) Ptr} (h : acceptBlockHeader src params env s new block = (r, s₁)) :
    s₁.nBlockSequenceId = s.nBlockSequenceId := by
  have hadd := addToBlockIndex_nBlockSequenceId s new block.toCBlockHeader
  unfold acceptBlockHeader at h
  split at h
  · split at h <;> cases h <;> rfl
  · split at h
    · cases h
      rfl
    · split at h
      · cases h
        exact hadd
      · split at h
        · cases h
          rfl
        · split at h
          · cases h
            rfl
          · split at h
            · cases h
              rfl
            · cases h
              exact hadd

theorem Settled.entered (h : Settled src s) (hv : d.Valid src nMaxReorgDepth s) (hnew : d.new ∉ s.index.mapBlockIndex)
    (hgen : d.hash ≠ src.hashGenesisBlock) (hp : s.index.find (src.block d.hash).hashPrevBlock = some p)
    (heq : acceptBlockHeader src params d.env s d.new (src.block d.hash) = (.ok b, s₁)) : Entered src s d p b s₁ := by
  have hseq := acceptBlockHeader_nBlockSequenceId heq
  rcases acceptBlockHeader_cases hnew heq with ⟨rfl, hfind⟩ | ⟨hb, ha, hnone, -⟩
  · obtain ⟨hb, hh⟩ := BlockIndex.find_some (hfind b rfl)
    rw [src.hash_block] at hh
    refine ⟨h, rfl, rfl, hb, hh, ?_, fun q hq => ⟨hq, rfl, rfl, fun _ => Iff.rfl⟩⟩
    rcases h.cons.source.parent b hb with ⟨hg, -⟩ | ⟨-, q, hq, hqh⟩
    · exact absurd (hh.symm.trans hg) hgen
    · have hfq := BlockIndex.find_eq (s₁.index.rooted.mem hb hq)
      rw [hqh, hh, hp] at hfq
      rw [hq, hfq]
  · cases hb
    rw [src.hash_block] at hnone
    have hbound : TreeBound src s₁.index := by
      rw [ha.index]
      exact hv.bound
    refine ⟨h.added ha (h.cons.source.added (Or.inr ⟨p, hp⟩) hnone ha) hbound, ha.chainActive, hseq, ?_, ?_, ?_,
      fun q hq => ⟨?_, ?_, ha.status_old q hq, fun a => ha.isAnc hq⟩⟩
    · rw [ha.mapBlockIndex]
      exact List.mem_cons_self
    · rw [ha.entry_new, BlockIndex.newEntry_header.1]
      exact src.hash_block d.hash
    · rw [BlockIndex.pprev, ha.entry_new]
      unfold BlockIndex.newEntry
      rw [hp]
    · rw [ha.mapBlockIndex]
      exact List.mem_cons_of_mem _ hq
    · rw [ha.index, BlockIndex.add_entry hq]

/-- `AcceptBlock` stores the block `b`, on `p`. -/
structure Stores (src : BlockSource) (s : ChainState) (d : Delivery) (p b : Ptr) (s₁ s₂ : ChainState) : Prop where
  entered : Entered src s d p b s₁
  found : s.index.find (src.block d.hash).hashPrevBlock = some p
  fresh : (s₁.status b).haveData = false
  stake : ∃ stakeTxIn, checkStakeInputs src d.env d.pcoinsTip s₁ (src.block d.hash) stakeTxIn p = some (.ok ())
  received : s₂ = s₁.receivedBlockTransactions b (src.block d.hash).vtx.length

/-- What `AcceptBlock` can do with a valid proof-of-stake block: leave the state as it is, also for a block that is there
already, fail after the entry is made, or store the block. -/
theorem Settled.accept_cases (h : Settled src s) (hv : d.Valid src nMaxReorgDepth s)
    (hnew : d.new ∉ s.index.mapBlockIndex) {r : Except (Option Rejection) Accepted}
    (heq : acceptBlock src params d.env d.pcoinsTip s d.new (src.block d.hash) true = some (r, s₂)) :
    s₂ = s ∨ (∃ e, r = .error e ∧ Settled src s₂ ∧ s₂.chainActive = s.chainActive) ∨
      ∃ a p b s₁, r = .ok a ∧ Stores src s d p b s₁ s₂ := by
  unfold acceptBlock at heq
  rw [src.hash_block] at heq
  split at heq
  · -- the genesis block has no parent to stake on
    unfold acceptOn at heq
    simp only [hv.stake, Bool.not_true, Bool.false_or, Bool.not_false, if_true] at heq
    cases heq
    exact Or.inl rfl
  · rename_i hgen
    split at heq
    · cases heq
      exact Or.inl rfl
    · rename_i p hp
      rw [h.unmarked p (BlockIndex.find_some hp).1] at heq
      simp only [Bool.false_eq_true, if_false] at heq
      unfold acceptOn at heq
      dsimp only at heq
      split at heq
      · cases heq
        exact Or.inl rfl
      · split at heq
        · rename_i e s₁ hheader
          cases heq
          rcases acceptBlockHeader_cases hnew hheader with ⟨rfl, -⟩ | ⟨hb, -⟩
          · exact Or.inl rfl
          · cases hb
        · rename_i b s₁ hheader
          have hent := h.entered hv hnew hgen hp hheader
          unfold acceptBlockData at heq
          split at heq
          · -- the data are there already, so that the entry is
            rename_i hd
            cases heq
            rcases acceptBlockHeader_cases hnew hheader with ⟨rfl, -⟩ | ⟨hb, ha, -⟩
            · exact Or.inl rfl
            · cases hb
              rw [ha.status_new] at hd
              cases hd
          · rename_i hd
            dsimp only at heq
            rw [if_pos rfl] at heq
            dsimp only [Check.pass] at heq
            rw [hv.checked] at heq
            dsimp only at heq
            split at heq
            · cases heq
            · rename_i e hstake
              cases heq
              exact Or.inr (Or.inl ⟨e, rfl, hent.settled, hent.chainActive⟩)
            · rename_i hstake
              split at heq
              · cases heq
                rw [Bool.not_eq_true] at hd
                refine Or.inr (Or.inr ⟨_, p, b, s₁, rfl, hent, hp, hd, ?_, rfl⟩)
                have hpos := hv.stake
                unfold CBlock.isProofOfStake at hpos
                split at hpos
                · rename_i x stakeTxIn rest hvtx
                  rw [hv.stake, hvtx] at hstake
                  exact ⟨stakeTxIn, hstake⟩
                · cases hpos
              · cases heq
                exact Or.inr (Or.inl ⟨none, rfl, hent.settled, hent.chainActive⟩)

theorem Entered.work (h : Entered src s d p b s₁) (hp : p ∈ s.index.mapBlockIndex) :
    s₁.index.work b = s.newWork p (src.block d.hash).nBits := by
  unfold BlockIndex.work newWork
  rw [h.settled.works b h.mem p h.parent, (h.old p hp).2.1, h.settled.cons.source.nBits b h.mem, h.hash]

theorem Entered.isAnc_iff {a : Ptr} (h : Entered src s d p b s₁) (hp : p ∈ s.index.mapBlockIndex) (ha : a ≠ b) :
    s₁.index.IsAnc a b ↔ s.index.IsAnc a p := by
  rw [← (h.old p hp).2.2.2 a]
  constructor
  · intro hab
    obtain ⟨q, hq, haq⟩ := hab.of_ne ha
    rw [h.parent] at hq
    cases hq
    exact haq
  · exact .up h.parent

theorem Stores.ready (h : Stores src s d p b s₁ s₂) (hv : d.Valid src nMaxReorgDepth s) (hpos : 0 < nMaxReorgDepth) :
    (s₁.status p).haveData = true ∧ Grown s₁ s₂ ∧ Ready src b s₂ := by
  obtain ⟨hent, hfind, hfresh, ⟨stakeTxIn, hstake⟩, rfl⟩ := h
  have hp := (BlockIndex.find_some hfind).1
  have hlen : 0 < (src.block d.hash).vtx.length := by
    have hpos := hv.stake
    unfold CBlock.isProofOfStake at hpos
    split at hpos
    · rename_i hvtx
      rw [hvtx]
      exact Nat.succ_pos _
    · cases hpos
  have hdata := (checkStakeInputs_ok hent.settled.cons (hent.old p hp).1 (by rw [hv.depth]; exact hpos) hstake).1
  refine ⟨hdata, (grown_received hent.settled.cons hent.mem hent.hash hfresh hlen fun q hq => ?_).2,
    hent.settled.received hent.mem hent.hash hfresh hlen (fun q hq => ?_) fun q hq => ?_⟩
  · exact hent.settled.unmarked q (s₁.index.rooted.mem hent.mem hq)
  · rw [hent.parent] at hq
    cases hq
    exact hdata
  · rw [hent.parent] at hq
    cases hq
    rw [hent.work hp, BlockIndex.work, (hent.old p hp).2.1]
    exact hv.work p hfind

theorem Stores.ne_of_linked {a : Ptr} (h : Stores src s d p b s₁ s₂) (hs : Settled src s)
    (ha : a ∈ s.index.mapBlockIndex) (hl : (s.status a).nChainTx ≠ 0) : a ≠ b := by
  rintro rfl
  have hfresh := h.fresh
  rw [(h.entered.old a ha).2.2.1, (hs.cons.links.linked a ha hl).1] at hfresh
  cases hfresh

theorem Stores.outweighs (h : Stores src s d p b s₁ s₂) (hs : Settled src s) (hv : d.Valid src nMaxReorgDepth s)
    (hpos : 0 < nMaxReorgDepth) (ht : s.tip = some t) (hless : s₂.workLess t b = true) : d.Outweighs src s p t := by
  obtain ⟨hdata, hgrown, -⟩ := h.ready hv hpos
  have hp := (BlockIndex.find_some h.found).1
  obtain ⟨htm, htl, -⟩ := hs.cons.tip_linked ht
  obtain ⟨-, hte, hts, -⟩ := h.entered.old t htm
  have hpb : p ≠ b := by
    rintro rfl
    rw [h.fresh] at hdata
    cases hdata
  have hseq : (s₂.status b).nSequenceId = s.nBlockSequenceId := by
    rw [h.received, h.entered.settled.nSequenceId_received _ h.entered.parent hpb
      (h.entered.settled.linked p (h.entered.old p hp).1 hdata), h.entered.nBlockSequenceId]
  have htseq : (s₂.status t).nSequenceId = (s.status t).nSequenceId := by
    rw [hgrown.old t (by rw [hts]; exact htl), hts]
  have hwork : s₂.index.work t = s.index.work t := by
    rw [hgrown.index, BlockIndex.work, hte]
    rfl
  rw [workLess_iff, hseq, htseq, hwork, hgrown.index, h.entered.work hp] at hless
  unfold WorkOrder at hless
  unfold Delivery.Outweighs
  omega

theorem Stores.disconnected_eq (h : Stores src s d p b s₁ s₂) (hs : Settled src s) (hs' : Consistent src s')
    (hindex : s'.index = s₁.index) (ht : s.tip = some t) (hb : s'.tip = some b) : s.disconnected s' = s.forkDepth p := by
  have hp := (BlockIndex.find_some h.found).1
  obtain ⟨htm, htl, -⟩ := hs.cons.tip_linked ht
  obtain ⟨f, hft, hfp, hmax, hdepth⟩ := exists_fork hs.cons ht hp
  obtain ⟨-, hchain⟩ := hs.cons.wf.active.of_tip ht
  obtain ⟨hbm, hchain'⟩ := hs'.wf.active.of_tip hb
  unfold disconnected
  rw [hdepth, hchain, hchain']
  refine countP_ofTip htm hbm hft fun a ha => ?_
  have hab : a ≠ b := h.ne_of_linked hs (s.index.rooted.anc_mem htm ha) (hs.cons.linked_anc htm htl ha).1
  rw [hindex, h.entered.isAnc_iff hp hab]
  exact ⟨hmax a ha, fun haf => haf.trans hfp⟩

theorem Stores.forkDepth_lt (h : Stores src s d p b s₁ s₂) (hs : Settled src s) (hv : d.Valid src nMaxReorgDepth s)
    (hpos : 0 < nMaxReorgDepth) (ht : s.tip = some t) (hle : s.index.nHeight t < s.index.nHeight p + 1) :
    (s.forkDepth p : Int) < nMaxReorgDepth := by
  have hp := (BlockIndex.find_some h.found).1
  obtain ⟨stakeTxIn, hstake⟩ := h.stake
  obtain ⟨htm, -, -⟩ := hs.cons.tip_linked ht
  obtain ⟨f, hft, hfp, hmax, hdepth⟩ := exists_fork hs.cons ht hp
  obtain ⟨-, g, hgp, hgc, hlt⟩ :=
    checkStakeInputs_ok h.entered.settled.cons (h.entered.old p hp).1 (by rw [hv.depth]; exact hpos) hstake
  have ht₁ : s₁.tip = some t := by
    rw [tip, h.entered.chainActive]
    exact ht
  have hgp' := ((h.entered.old p hp).2.2.2 g).mp hgp
  have hgt := ((h.entered.old t htm).2.2.2 g).mp ((h.entered.settled.cons.wf.active.contains_iff ht₁).mp hgc)
  have hgf := s.index.rooted.anc_le (s.index.rooted.anc_mem htm hft) (hmax g hgt hgp')
  have hheight : ∀ q ∈ s.index.mapBlockIndex, s₁.index.nHeight q = s.index.nHeight q := by
    intro q hq
    unfold BlockIndex.nHeight
    rw [(h.entered.old q hq).2.1]
  rw [hv.depth, hheight p hp, hheight g (s.index.rooted.anc_mem hp hgp')] at hlt
  rw [hdepth]
  omega

theorem chainActive_eq (hs : s.Active) (hs' : s'.Active) (hindex : s'.index = s.index) (ht : s'.tip = s.tip) :
    s'.chainActive = s.chainActive := by
  rcases hs.tip_cases with ⟨hc, htip⟩ | ⟨t, -, hc, htip⟩
  · rcases hs'.tip_cases with ⟨hc', -⟩ | ⟨t', -, -, htip'⟩
    · rw [hc, hc']
    · rw [ht, htip] at htip'
      cases htip'
  · rw [(hs'.of_tip (ht.trans htip)).2, hc, hindex]

/-! ## Runs -/

theorem Settled.step (h : Settled src s) (hv : d.Valid src nMaxReorgDepth s) (hpos : 0 < nMaxReorgDepth)
    (heq : d.step src params s = some s') :
    Settled src s' ∧ (d.Harmless src nMaxReorgDepth s → (s.disconnected s' : Int) < nMaxReorgDepth) := by
  have hsame : s'.chainActive = s.chainActive → (s.disconnected s' : Int) < nMaxReorgDepth := by
    intro hc
    rw [disconnected_self hc]
    exact hpos
  have hempty : s.chainActive = ⟨[]⟩ → (s.disconnected s' : Int) < nMaxReorgDepth := by
    intro hc
    unfold disconnected
    rw [hc]
    exact hpos
  unfold Delivery.step at heq
  split at heq
  · cases heq
  · rename_i hnew
    split at heq
    · cases heq
    · rename_i e s₂ hacc
      cases heq
      rcases h.accept_cases hv hnew hacc with rfl | ⟨-, -, hs', hc⟩ | ⟨a, -, -, -, hr, -⟩
      · exact ⟨h, fun _ => hsame rfl⟩
      · exact ⟨hs', fun _ => hsame hc⟩
      · cases hr
    · rename_i a s₂ hacc
      have hdone : Consistent src s₂ → activateBestChain d.env.orc d.env.fuel s₂ = .done s' := by
        intro hs₂
        split at heq
        · rename_i hres
          cases heq
          exact hres
        · rename_i hres
          exact absurd hres (activateBestChain_not_failed hv.connects.noErrors hs₂)
        · cases heq
        · cases heq
      rcases h.accept_cases hv hnew hacc with rfl | ⟨e, hr, -⟩ | ⟨-, p, b, s₁, -, hst⟩
      · -- the block was there: the tip cannot go anywhere
        rcases h.cons.wf.active.tip_cases with ⟨hc, -⟩ | ⟨t, -, -, ht⟩
        · exact ⟨((h.ready 0).activate hv.connects (hdone h.cons)).1, fun _ => hempty hc⟩
        · obtain ⟨hs', hmoved⟩ := (h.ready t).activate hv.connects (hdone h.cons)
          refine ⟨hs', fun _ => hsame (chainActive_eq h.cons.wf.active hs'.cons.wf.active hmoved.frame.index ?_)⟩
          rcases hmoved.tip with htip | ⟨htip, -⟩
          · exact htip
          · rw [htip, ht]
      · cases hr
      · obtain ⟨-, hgrown, hready⟩ := hst.ready hv hpos
        obtain ⟨hs', hmoved⟩ := hready.activate hv.connects (hdone hready.cons)
        refine ⟨hs', fun hharmless => ?_⟩
        have hchain : s₂.chainActive = s.chainActive := hgrown.chainActive.trans hst.entered.chainActive
        have htip₂ : s₂.tip = s.tip := by rw [tip, tip, hchain]
        rcases hmoved.tip with htip' | ⟨htip', hless⟩
        · refine hsame ?_
          rw [← hchain]
          exact chainActive_eq hready.cons.wf.active hs'.cons.wf.active hmoved.frame.index htip'
        · rcases h.cons.wf.active.tip_cases with ⟨hc, -⟩ | ⟨t, -, -, ht⟩
          · exact hempty hc
          · have hindex := hmoved.frame.index.trans hgrown.index
            rw [hst.disconnected_eq h hs'.cons hindex ht htip']
            have hout := hst.outweighs h hv hpos ht (hless t (htip₂.trans ht))
            rcases hharmless p t hst.found ht hout with hhigh | hlow
            · exact hst.forkDepth_lt h hv hpos ht hhigh
            · exact hlow

end ChainState

/-- A block of the chain that a node starts with. -/
structure Predecessor where
  new : Ptr
  hash : Uint256
  orc : Oracle
  fuel : Nat

/-- The header and the data of the block arrive, and the best chain is activated. -/
def Predecessor.step (src : BlockSource) (s : ChainState) (a : Predecessor) : Option ChainState :=
  NodeOp.step src (acceptData src (acceptHeader src s a.new a.hash) a.hash) (.activateBestChain a.orc a.fuel)

/-- A valid block that arrives after its parent: it can be connected, adds to the work of its parent, and no counter
wraps. -/
structure Predecessor.Valid (src : BlockSource) (s : ChainState) (a : Predecessor) : Prop where
  connects : a.orc.Steady fun _ => true
  bound : TreeBound src (acceptHeader src s a.new a.hash).index
  parent : ∀ p ∈ (acceptHeader src s a.new a.hash).index.mapBlockIndex,
    ((acceptHeader src s a.new a.hash).index.entry p).hash = a.hash →
    ∀ q ∈ (acceptHeader src s a.new a.hash).index.pprev p,
      ((acceptHeader src s a.new a.hash).status q).haveData = true ∧
      (acceptHeader src s a.new a.hash).index.work q < (acceptHeader src s a.new a.hash).index.work p

theorem ChainState.Settled.arrival {src : BlockSource} {s s' : ChainState} {a : Predecessor} (h : Settled src s)
    (hv : a.Valid src s) (heq : a.step src s = some s') : Settled src s' := by
  have hs₁ : Settled src (acceptHeader src s a.new a.hash) := by
    rcases acceptHeader_cases src s a.new a.hash with heq | ⟨hpar, hnone, ha⟩
    · rw [heq]
      exact h
    · exact h.added ha (h.cons.source.added (hpar.imp_right fun ⟨q, hq, _⟩ => ⟨q, hq⟩) hnone ha) hv.bound
  have hready : ∃ b, Ready src b (acceptData src (acceptHeader src s a.new a.hash) a.hash) := by
    rcases acceptData_cases src (acceptHeader src s a.new a.hash) a.hash with heq | ⟨p, hp, hh, -, hd, hlen, -, heq⟩
    · rw [heq]
      exact ⟨0, hs₁.ready 0⟩
    · rw [heq]
      exact ⟨p, hs₁.received hp hh hd hlen (fun q hq => (hv.parent p hp hh q hq).1) fun q hq => (hv.parent p hp hh q hq).2⟩
  obtain ⟨b, hready⟩ := hready
  exact (hready.activate hv.connects (step_activate hv.connects.noErrors hready.cons heq)).1

/-- **Reorganisation depth.** A node starts with any blocks that arrived after their parents, and then valid
proof-of-stake blocks arrive in any order. As long as each is harmless when it arrives, none makes the node disconnect
`-maxreorg` blocks or more. -/
theorem disconnected_lt {src : BlockSource} {params : ConsensusParams} {nMaxReorgDepth : Int} {as : List Predecessor}
    {s : ChainState} {ds : List Delivery} (hpos : 0 < nMaxReorgDepth)
    (hbefore : Meets (Predecessor.step src) (fun s a => a.Valid src s) ChainState.init as)
    (hstart : as.foldlM (Predecessor.step src) ChainState.init = some s)
    (hmeets : Meets (Delivery.step src params)
      (fun s d => d.Valid src nMaxReorgDepth s ∧ d.Harmless src nMaxReorgDepth s) s ds) :
    Meets (Delivery.step src params)
      (fun s d => ∀ s', d.step src params s = some s' → (s.disconnected s' : Int) < nMaxReorgDepth) s ds := by
  have hs : Settled src s := hbefore.keeps (fun _ _ _ h hv heq => h.arrival hv heq) (.init src) hstart
  exact hmeets.of_kept (I := Settled src) (fun _ _ _ h hd heq => (h.step hd.1 hpos heq).1)
    (fun _ _ h hd _ heq => (h.step hd.1 hpos heq).2 hd.2) hs

/-! ## A block with a harder target -/

/-- A transaction with three outputs to stake. -/
def fundingTx : CTransaction := ⟨100, 1, [⟨⟨0, 2 ^ 32 - 1⟩, [], 0⟩], List.replicate 3 ⟨1000, [0x51], -10⟩, 0⟩

/-- A coinstake for one of them. -/
def fundingStake (hash : Uint256) (n : Nat) : CTransaction :=
  ⟨hash, 1, [⟨⟨100, n⟩, [], 0⟩], [⟨0, [], -10⟩, ⟨1000, [0x51], -10⟩], 0⟩

/-- Blocks 2 and 3 follow one another on block 1, and block 4 follows it with a harder target. -/
def reorgSource : BlockSource where
  block h := ⟨⟨h, 7, if h = 4 then 1 else h - 1, 0, 0, if h = 4 then 0x201fffff else 0x207fffff, 0⟩,
    if h = 0 then [⟨99, 1, [], [], 0⟩] else if h = 1 then [fundingTx]
    else [⟨200 + h, 1, [⟨⟨0, 2 ^ 32 - 1⟩, [], 0⟩], [⟨0, [], -10⟩], 0⟩, fundingStake (300 + h) (h.toNat - 2)]⟩
  hash_block _ := rfl
  hashGenesisBlock := 0

/-- The regression test network, but with proof of stake from height 2 on. -/
def reorgParams : ConsensusParams := { regTestParams 1000 with heightLastPoW := 1 }

/-- The coins after the blocks. -/
def reorgCoins (hashes : List Uint256) : CoinsView :=
  hashes.foldl (fun view hash => (reorgSource.block hash).vtx.foldl
    (fun view tx => match updateCoins tx view hash.toNat.toInt32 with
      | none => view
      | some (_, view') => view') view) ⟨fun _ => .empty, 0⟩

/-- The block arrives when the blocks `before` are on the active chain. -/
def reorgDelivery (nMaxReorgDepth : Int) (hash : Uint256) (before : List Uint256) : Delivery where
  env := { AcceptEnv.lenient with
    nMaxReorgDepth
    getTransaction := fun txid => if txid = 100 then some (fundingTx, 1) else none }
  pcoinsTip := reorgCoins before
  new := hash.toNat
  hash := hash

/-- Blocks 2, 3 and 4 arrive in this order. -/
def reorgDeliveries (nMaxReorgDepth : Int) : List Delivery :=
  [reorgDelivery nMaxReorgDepth 2 [1], reorgDelivery nMaxReorgDepth 3 [1, 2], reorgDelivery nMaxReorgDepth 4 [1, 2, 3]]

/-- The node starts with the genesis block and block 1. -/
def reorgStart : List Predecessor := [⟨0, 0, .succeeds, 10⟩, ⟨1, 1, .succeeds, 10⟩]

/-- The state after the start and some of the deliveries. -/
def reorgState (nMaxReorgDepth : Int) : Nat → ChainState
  | 0 => (reorgStart.foldlM (Predecessor.step reorgSource) ChainState.init).getD ChainState.init
  | n + 1 => ((reorgDeliveries nMaxReorgDepth)[n]?.bind
      (Delivery.step reorgSource reorgParams (reorgState nMaxReorgDepth n))).getD ChainState.init

instance (src : BlockSource) (t : BlockIndex) : Decidable (TreeBound src t) :=
  inferInstanceAs (Decidable (∀ p ∈ t.mapBlockIndex, treeSum src t p < 2 ^ 32))

theorem reorgDelivery_valid {nMaxReorgDepth : Int} {hash : Uint256} {before : List Uint256} {s : ChainState}
    (hstake : (reorgSource.block hash).isProofOfStake = true)
    (hwork : ∀ p ∈ s.index.find (reorgSource.block hash).hashPrevBlock,
      s.index.work p < s.newWork p (reorgSource.block hash).nBits)
    (hbound : TreeBound reorgSource (s.index.add hash.toNat (reorgSource.block hash).toCBlockHeader)) :
    (reorgDelivery nMaxReorgDepth hash before).Valid reorgSource nMaxReorgDepth s :=
  ⟨rfl, hstake, fun _ => rfl, Oracle.succeeds_steady, hwork, hbound⟩

theorem eq_some_getD {o : Option ChainState} (h : o.isSome = true) : o = some (o.getD ChainState.init) := by
  cases o with
  | none => cases h
  | some s => rfl

theorem reorgStart_valid :
    Meets (Predecessor.step reorgSource) (fun s a => a.Valid reorgSource s) ChainState.init reorgStart := by
  refine .cons _ ⟨Oracle.succeeds_steady, by decide, by decide⟩ (eq_some_getD (by decide)) ?_
  exact .cons _ ⟨Oracle.succeeds_steady, by decide, by decide⟩ (eq_some_getD (by decide)) trivial

theorem reorgStart_run (nMaxReorgDepth : Int) :
    reorgStart.foldlM (Predecessor.step reorgSource) ChainState.init = some (reorgState nMaxReorgDepth 0) :=
  eq_some_getD (by decide)

theorem Delivery.Harmless.of_eq {src : BlockSource} {nMaxReorgDepth : Int} {s : ChainState} {d : Delivery} {p t : Ptr}
    (hp : s.index.find (src.block d.hash).hashPrevBlock = some p) (ht : s.tip = some t)
    (h : s.index.nHeight t < s.index.nHeight p + 1 ∨ (s.forkDepth p : Int) < nMaxReorgDepth) :
    d.Harmless src nMaxReorgDepth s := by
  intro p' t' hp' ht' _
  rw [hp] at hp'
  rw [ht] at ht'
  cases hp'
  cases ht'
  exact h

/-- With `-maxreorg` 3 the switch to block 4 is not too deep. -/
theorem disconnected_lt_reorg : Meets (Delivery.step reorgSource reorgParams) (fun s d =>
    ∀ s', d.step reorgSource reorgParams s = some s' → (s.disconnected s' : Int) < 3) (reorgState 3 0)
    (reorgDeliveries 3) := by
  refine disconnected_lt (by decide) reorgStart_valid (reorgStart_run 3) (.cons (reorgState 3 1) ⟨?_, ?_⟩ ?_
    (.cons (reorgState 3 2) ⟨?_, ?_⟩ ?_ (.cons (reorgState 3 3) ⟨?_, ?_⟩ ?_ trivial)))
  · exact reorgDelivery_valid (by decide) (by decide) (by decide)
  · exact .of_eq (p := 1) (t := 1) (by decide) (by decide) (by decide)
  · exact eq_some_getD (by decide)
  · exact reorgDelivery_valid (by decide) (by decide) (by decide)
  · exact .of_eq (p := 2) (t := 2) (by decide) (by decide) (by decide)
  · exact eq_some_getD (by decide)
  · exact reorgDelivery_valid (by decide) (by decide) (by decide)
  · exact .of_eq (p := 1) (t := 3) (by decide) (by decide) (by decide)
  · exact eq_some_getD (by decide)

/-- With `-maxreorg` 2 block 4 is accepted, as it is one block below the tip, and two blocks are disconnected. -/
theorem disconnected_not_lt : ¬ ∀ src params (nMaxReorgDepth : Int) as s ds, 0 < nMaxReorgDepth →
    Meets (Predecessor.step src) (fun s a => a.Valid src s) ChainState.init as →
    as.foldlM (Predecessor.step src) ChainState.init = some s →
    Meets (Delivery.step src params) (fun s d => d.Valid src nMaxReorgDepth s) s ds →
    Meets (Delivery.step src params)
      (fun s d => ∀ s', d.step src params s = some s' → (s.disconnected s' : Int) < nMaxReorgDepth) s ds := by
  intro hall
  have h₁ : (reorgDelivery 2 2 [1]).step reorgSource reorgParams (reorgState 2 0) = some (reorgState 2 1) :=
    eq_some_getD (by decide)
  have h₂ : (reorgDelivery 2 3 [1, 2]).step reorgSource reorgParams (reorgState 2 1) = some (reorgState 2 2) :=
    eq_some_getD (by decide)
  have h₃ : (reorgDelivery 2 4 [1, 2, 3]).step reorgSource reorgParams (reorgState 2 2) = some (reorgState 2 3) :=
    eq_some_getD (by decide)
  have hrun := hall reorgSource reorgParams 2 reorgStart (reorgState 2 0) (reorgDeliveries 2) (by decide) reorgStart_valid
    (reorgStart_run 2) (.cons _ (reorgDelivery_valid (by decide) (by decide) (by decide)) h₁
      (.cons _ (reorgDelivery_valid (by decide) (by decide) (by decide)) h₂
        (.cons _ (reorgDelivery_valid (by decide) (by decide) (by decide)) h₃ trivial)))
  have hlt := ((hrun.2 _ h₁).2 _ h₂).1 _ h₃
  revert hlt
  decide

end DigiWage
