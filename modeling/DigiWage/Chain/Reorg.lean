import DigiWage.Chain.MostWork

/-!
# `ActivateBestChainStep`

One step towards the chain with the most work, when no system error occurs: the tip goes down to the fork and up along
the new branch, until it has the most work or more work than at the start, or a block is invalid.
-/

namespace DigiWage

open Lib

/-- No system errors: `ConnectBlock` accepts or rejects, and `DisconnectBlock` succeeds. -/
structure Oracle.NoErrors (orc : Oracle) : Prop where
  connect : ∀ n p, orc.connect n p ≠ .error
  disconnect : ∀ n p, orc.disconnect n p = true

namespace ChainState

variable {src : BlockSource} {s s' s'' : ChainState} {p q m t f : Ptr} {orc : Oracle}

/-! ## Down -/

/-- The state with a lower tip. -/
def disconnectedTo (s : ChainState) (f : Ptr) (n : Nat) : ChainState :=
  { s with chainActive := CChain.ofTip s.index f, nCalls := n }

theorem tip_disconnectedTo (hf : f ∈ s.index.mapBlockIndex) (n : Nat) : (s.disconnectedTo f n).tip = some f :=
  CChain.tip_ofTip hf

theorem disconnectTip_eq (hact : s.Active) (ht : s.tip = some t) (hq : s.index.pprev t = some q)
    (hd : orc.disconnect s.nCalls t = true) :
    s.disconnectTip orc = some (true, s.disconnectedTo q (s.nCalls + 1)) := by
  obtain ⟨htm, hc⟩ := hact.of_tip ht
  unfold disconnectTip disconnectedTo
  rw [ht]
  dsimp only
  rw [if_pos hd, hq]
  dsimp only
  rw [hc, CChain.setTip_ofTip htm (s.index.rooted.mem htm hq)]

theorem disconnectTo_spec (hd : ∀ n p, orc.disconnect n p = true) : ∀ (fuel : Nat) {s : ChainState} {t : Ptr},
    s.Active → s.tip = some t → s.index.IsAnc f t → s.index.nHeight t ≤ s.index.nHeight f + fuel →
    ∃ n, disconnectTo orc (some f) fuel s = some (true, s.disconnectedTo f n)
  | 0, s, t, hact, ht, hf, hfuel => by
    obtain ⟨htm, hc⟩ := hact.of_tip ht
    have hft := s.index.rooted.anc_eq htm hf hfuel
    refine ⟨s.nCalls, ?_⟩
    unfold disconnectTo disconnectedTo
    rw [hft, ← hc]
  | fuel + 1, s, t, hact, ht, hf, hfuel => by
    obtain ⟨htm, hc⟩ := hact.of_tip ht
    unfold disconnectTo
    by_cases hft : f = t
    · rw [if_pos (Or.inr (by rw [ht, hft]))]
      refine ⟨s.nCalls, ?_⟩
      unfold disconnectedTo
      rw [hft, ← hc]
    · obtain ⟨q, hq, hfq⟩ := hf.of_ne hft
      have hne : ¬ (s.tip = none ∨ s.tip = some f) := by
        rw [ht]
        rintro (h | h)
        · cases h
        · cases h
          exact hft rfl
      rw [if_neg hne, disconnectTip_eq hact ht hq (hd _ _)]
      have hqm := s.index.rooted.mem htm hq
      have hsucc := s.index.rooted.succ htm hq
      exact disconnectTo_spec hd fuel (s := s.disconnectedTo q (s.nCalls + 1)) (Or.inr ⟨q, hqm, rfl⟩)
        (tip_disconnectedTo hqm _) hfq (show s.index.nHeight q ≤ s.index.nHeight f + fuel by omega)

theorem Consistent.disconnectedTo (h : Consistent src s) (ht : s.tip = some t) (hf : s.index.IsAnc f t) (n : Nat) :
    Consistent src (s.disconnectedTo f n) := by
  obtain ⟨htm, hl, -⟩ := h.tip_linked ht
  have hfm := s.index.rooted.anc_mem htm hf
  refine h.of_frame (.of_status rfl rfl rfl) ⟨Or.inr ⟨f, hfm, rfl⟩, h.wf.candidates, h.wf.unlinked⟩
    (fun a ha => ?_) (fun p hp => ⟨(h.sound p hp).1, ?_⟩)
  · have haf : s.index.IsAnc a f := (CChain.contains_iff hfm).mp ha
    exact h.chain a ((h.wf.active.contains_iff ht).mpr (haf.trans hf))
  · rw [not_below_iff (tip_disconnectedTo hfm n)]
    exact not_workLess_trans ((not_below_iff ht).mp (h.sound p hp).2) (h.not_workLess_anc htm hl hf)

/-! ## Up -/

/-- From `s` to `s'` blocks were connected: the tip rose, and the candidates below it went. -/
structure Climb (src : BlockSource) (orc : Oracle) (s s' : ChainState) : Prop where
  frame : Frame s s'
  cons : Consistent src s'
  flags : ∀ q, (s'.status q).failedValid = (s.status q).failedValid ∧
    (s'.status q).failedChild = (s.status q).failedChild
  cand : ∀ q, q ∈ s'.setBlockIndexCandidates ↔ q ∈ s.setBlockIndexCandidates ∧ ¬ s'.Below q
  rises : ∀ t, s.tip = some t → ∃ t', s'.tip = some t' ∧ s.index.IsAnc t t'
  verdict : ∀ a, s'.chainActive.contains s.index a = true → s.chainActive.contains s.index a = true ∨
    ∃ n, orc.connect n a = .valid

theorem failed_of_flags {st st' : BlockStatus}
    (h : st'.failedValid = st.failedValid ∧ st'.failedChild = st.failedChild) : st'.failed = st.failed := by
  unfold BlockStatus.failed
  rw [h.1, h.2]

namespace Climb

theorem refl (h : Consistent src s) : Climb src orc s s :=
  ⟨.refl s, h, fun _ => ⟨rfl, rfl⟩, fun q => ⟨fun hq => ⟨hq, (h.sound q hq).2⟩, fun hq => hq.1⟩,
    fun t ht => ⟨t, ht, .refl t⟩, fun _ ha => Or.inl ha⟩

theorem failed (h : Climb src orc s s') (q : Ptr) : (s'.status q).failed = (s.status q).failed := failed_of_flags (h.flags q)

theorem below (h : Climb src orc s s') (hq : s.Below q) : s'.Below q := by
  obtain ⟨t, ht, hlt⟩ := hq
  obtain ⟨t', ht', ha⟩ := h.rises t ht
  refine ⟨t', ht', ?_⟩
  rw [h.frame.workLess]
  by_cases htt : t = t'
  · rw [← htt]
    exact hlt
  · obtain ⟨hm, hl, -⟩ := h.cons.tip_linked ht'
    have hw := h.cons.work_anc hm hl (a := t) (by rw [h.frame.index]; exact ha) htt
    rw [h.frame.index] at hw
    exact workLess_trans hlt (workLess_of_work hw)

theorem trans (h₁ : Climb src orc s s') (h₂ : Climb src orc s' s'') : Climb src orc s s'' := by
  refine ⟨h₁.frame.trans h₂.frame, h₂.cons, fun q => ?_, fun q => ?_, fun t ht => ?_, fun a ha => ?_⟩
  · exact ⟨(h₂.flags q).1.trans (h₁.flags q).1, (h₂.flags q).2.trans (h₁.flags q).2⟩
  · rw [h₂.cand, h₁.cand]
    constructor
    · rintro ⟨⟨hq, -⟩, hn⟩
      exact ⟨hq, hn⟩
    · rintro ⟨hq, hn⟩
      exact ⟨⟨hq, fun hb => hn (h₂.below hb)⟩, hn⟩
  · obtain ⟨t', ht', ha⟩ := h₁.rises t ht
    obtain ⟨t'', ht'', ha'⟩ := h₂.rises t' ht'
    rw [h₁.frame.index] at ha'
    exact ⟨t'', ht'', ha.trans ha'⟩
  · rw [← h₁.frame.index] at ha
    rcases h₂.verdict a ha with ha' | hv
    · rw [h₁.frame.index] at ha'
      exact h₁.verdict a ha'
    · exact Or.inr hv

end Climb

/-- The state once `p` is connected and the candidates below it are gone. -/
def connectedPruned (s : ChainState) (p : Ptr) : ChainState :=
  { s.connected p with
    setBlockIndexCandidates := s.setBlockIndexCandidates.filter (fun q => !(s.connected p).workLess q p) }

theorem climb_connected (h : Consistent src s) (hpar : s.index.pprev p = s.tip) (hf : (s.status p).failed = false)
    (hverdict : orc.connect s.nCalls p = .valid) (hm : m ∈ s.setBlockIndexCandidates) (hpm : s.index.IsAnc p m) :
    (s.connected p).pruneBlockIndexCandidates = some (s.connectedPruned p) ∧ Climb src orc s (s.connectedPruned p) ∧
      (s.connectedPruned p).tip = some p := by
  have hmm := h.wf.candidates m hm
  have hlm := (h.sound m hm).1
  have hp := s.index.rooted.anc_mem hmm hpm
  have hlp := (h.linked_anc hmm hlm hpm).1
  obtain ⟨hv, hc, hd, htx, hct, hseq, hval⟩ := s.connectedStatus_spec p
  have hframe : Frame s (s.connectedPruned p) := .of_update rfl rfl rfl hd htx hct hseq hval
  have htip : (s.connectedPruned p).tip = some p := CChain.tip_ofTip hp
  have hleft : m ∈ (s.connectedPruned p).setBlockIndexCandidates := by
    refine List.mem_filter.mpr ⟨hm, ?_⟩
    show (!(s.connectedPruned p).workLess m p) = true
    rw [hframe.workLess, h.not_workLess_anc hmm hlm hpm]
    rfl
  refine ⟨?_, ?_, htip⟩
  · have htip' : (s.connected p).tip = some p := htip
    unfold pruneBlockIndexCandidates
    rw [htip']
    exact if_neg (by rw [List.isEmpty_iff]; exact List.ne_nil_of_mem hleft)
  · have hstatus : ∀ q, q ≠ p → (s.connectedPruned p).status q = s.status q := fun q hq => Function.update_of_ne hq _ _
    have hself : (s.connectedPruned p).status p = s.connectedStatus p := Function.update_self _ _ _
    have hbelow : ∀ q, ¬ (s.connectedPruned p).Below q ↔ (s.connected p).workLess q p = false :=
      fun q => not_below_iff htip
    refine ⟨hframe, h.of_frame hframe ⟨Or.inr ⟨p, hp, rfl⟩, fun q hq => ?_, h.wf.unlinked⟩ (fun a ha => ?_)
      (fun q hq => ?_), fun q => ?_, fun q => ?_, fun t ht => ?_, fun a ha => ?_⟩
    · exact h.wf.candidates q (List.mem_filter.mp hq).1
    · -- the new block, or a block of the old chain
      have hap : s.index.IsAnc a p := (CChain.contains_iff hp).mp ha
      by_cases hne : a = p
      · subst hne
        refine ⟨by rw [hself]; exact (failed_of_flags ⟨hv, hc⟩).trans hf, hlp, ?_⟩
        cases hroot : s.index.pprev a with
        | none => exact Or.inl rfl
        | some q =>
          refine Or.inr ?_
          rw [hself]
          unfold connectedStatus BlockStatus.raiseValidity
          have hf' : ({ s.status a with haveUndo := true } : BlockStatus).failed = false := hf
          rw [if_neg (by rw [hroot]; simp), if_neg (by rw [hf']; simp)]
          split
          · exact Nat.le_refl _
          · rename_i hlt
            exact Nat.le_of_not_lt hlt
      · rw [hstatus a hne]
        obtain ⟨q, hq, haq⟩ := hap.of_ne hne
        exact h.chain a ((h.wf.active.contains_iff (hpar.symm.trans hq)).mpr haq)
    · obtain ⟨hq, hn⟩ := List.mem_filter.mp hq
      exact ⟨(h.sound q hq).1, (hbelow q).mpr (by simpa using hn)⟩
    · by_cases hq : q = p
      · subst hq
        rw [hself]
        exact ⟨hv, hc⟩
      · rw [hstatus q hq]
        exact ⟨rfl, rfl⟩
    · rw [hbelow, connectedPruned, List.mem_filter, Bool.not_eq_true']
    · exact ⟨p, htip, .parent (hpar.trans ht)⟩
    · have hap : s.index.IsAnc a p := (CChain.contains_iff hp).mp ha
      by_cases hne : a = p
      · exact Or.inr ⟨s.nCalls, by rw [hne]; exact hverdict⟩
      · obtain ⟨q, hq, haq⟩ := hap.of_ne hne
        exact Or.inl ((h.wf.active.contains_iff (hpar.symm.trans hq)).mpr haq)

/-- A block off the active chain was found invalid. -/
structure Fails (s s' : ChainState) (p : Ptr) : Prop where
  frame : Frame s s'
  wf : s'.WellFormed
  chainActive : s'.chainActive = s.chainActive
  marked : (s'.status p).failed = true
  flags : ∀ q, q ≠ p → s'.status q = s.status q
  cand : ∀ q, q ∈ s'.setBlockIndexCandidates ↔ q ∈ s.setBlockIndexCandidates ∧ q ≠ p

theorem fails_invalidBlockFound (h : s.WellFormed) (p back : Ptr) :
    Fails s (({ s with nCalls := s.nCalls + 1 }.invalidBlockFound p).invalidChainFound back) p := by
  have hcall : ({ s with nCalls := s.nCalls + 1 } : ChainState).WellFormed :=
    h.of_frame rfl rfl (fun _ hq => Or.inl hq) (fun _ hl => Or.inl hl)
  have hwf := (marks_invalidBlockFound hcall p).wf
  obtain ⟨b, hb⟩ := invalidChainFound_eq ((setStatus { s with nCalls := s.nCalls + 1 } p
    fun st => { st with failedValid := true }).eraseCandidates [p]) p
  obtain ⟨b', hb'⟩ := invalidChainFound_eq ({ s with nCalls := s.nCalls + 1 }.invalidBlockFound p) back
  rw [hb']
  refine ⟨?_, ⟨hwf.active, hwf.candidates, hwf.unlinked⟩, ?_, ?_, fun q hq => ?_, fun q => ?_⟩ <;>
    unfold invalidBlockFound <;> rw [hb]
  · exact .of_update rfl rfl rfl rfl rfl rfl rfl (Nat.le_refl _)
  · rfl
  · simp [setStatus, eraseCandidates, BlockStatus.failed]
  · simp [setStatus, eraseCandidates, Function.update_of_ne hq]
  · simp [setStatus, eraseCandidates]

theorem Fails.consistent (h : Fails s s' p) (hc : Consistent src s) (hp : s.chainActive.contains s.index p = false) :
    Consistent src s' := by
  have htip : s'.tip = s.tip := by rw [tip, tip, h.chainActive]
  refine hc.of_frame h.frame h.wf (fun a ha => ?_) (fun q hq => ?_)
  · rw [h.chainActive] at ha
    have hne : a ≠ p := by
      rintro rfl
      rw [ha] at hp
      cases hp
    rw [h.flags a hne]
    exact hc.chain a ha
  · obtain ⟨hq, -⟩ := (h.cand q).mp hq
    refine ⟨(hc.sound q hq).1, fun hb => (hc.sound q hq).2 ?_⟩
    unfold Below at hb ⊢
    rw [htip] at hb
    simpa only [h.frame.workLess] using hb

/-! ## The blocks to connect -/

/-- Each block of the list stands on the one before it. -/
def Ascends (t : BlockIndex) : Option Ptr → List Ptr → Prop
  | _, [] => True
  | base, p :: ps => t.pprev p = base ∧ Ascends t (some p) ps

theorem ascends_concat {t : BlockIndex} : ∀ {l : List Ptr} {base : Option Ptr} {p : Ptr}, Ascends t base l →
    t.pprev p = l.getLast?.or base → Ascends t base (l ++ [p])
  | [], _, _, _, hp => ⟨by simpa using hp, trivial⟩
  | x :: l, base, p, ⟨hx, hl⟩, hp => by
    refine ⟨hx, ascends_concat hl ?_⟩
    rw [hp]
    cases l with
    | nil => rfl
    | cons y l => rw [List.getLast?_cons_cons, List.getLast?_eq_some_getLast (List.cons_ne_nil y l)]; rfl

/-- The tip of `base` is the ancestor below height `next`. -/
def Stands (t : BlockIndex) (base : Option Ptr) (m : Ptr) (next : Nat) : Prop :=
  match base with
  | none => next = 0
  | some b => t.IsAnc b m ∧ t.nHeight b + 1 = next

theorem ascends_path {t : BlockIndex} {base : Option Ptr} {next : Nat} : ∀ p ∈ t.mapBlockIndex, Stands t base p next →
    next ≤ t.nHeight p + 1 → Ascends t base ((t.path p).takeWhile fun q => t.nHeight q + 1 ≠ next).reverse ∧
      ((t.path p).takeWhile fun q => t.nHeight q + 1 ≠ next).reverse.getLast?.or base = some p := by
  refine t.rooted.induct_on fun p hp ih hbase hle => ?_
  by_cases htop : t.nHeight p + 1 = next
  · -- the base is the block itself
    obtain ⟨l, hl⟩ := CChain.path_head hp
    have hnil : (t.path p).takeWhile (fun q => t.nHeight q + 1 ≠ next) = [] := by
      rw [hl, List.takeWhile_cons, if_neg (by simp [htop])]
    rw [hnil]
    refine ⟨trivial, ?_⟩
    cases base with
    | none =>
      have : next = 0 := hbase
      omega
    | some b =>
      obtain ⟨hb, hbh⟩ := hbase
      rw [t.rooted.anc_eq hp hb (by omega)]
      rfl
  · cases hpar : t.pprev p with
    | none =>
      have h0 := t.rooted.root hp hpar
      have hbase' : base = none := by
        cases base with
        | none => rfl
        | some b =>
          have := hbase.2
          omega
      rw [t.path_none hp hpar, List.takeWhile_cons, if_pos (by simpa using htop), hbase']
      exact ⟨⟨hpar, trivial⟩, rfl⟩
    | some q =>
      have hsucc := t.rooted.succ hp hpar
      have hbase' : Stands t base q next := by
        cases base with
        | none => exact hbase
        | some b =>
          obtain ⟨hb, hbh⟩ := hbase
          obtain ⟨q', hq', hbq⟩ := hb.of_ne (by rintro rfl; exact htop hbh)
          rw [hpar] at hq'
          cases hq'
          exact ⟨hbq, hbh⟩
      obtain ⟨hasc, hlast⟩ := ih q hpar hbase' (by omega)
      rw [t.path_some hp hpar, List.takeWhile_cons, if_pos (by simpa using htop), List.reverse_cons]
      exact ⟨ascends_concat hasc (by rw [hpar, hlast]), by simp⟩

/-! ## The step -/

theorem connectTip_some (orc : Oracle) (hpar : s.index.pprev p = s.tip) : ∃ r s', s.connectTip orc p = some (r, s') := by
  unfold connectTip
  rw [if_pos hpar]
  dsimp only
  cases orc.connect s.nCalls p with
  | valid => exact ⟨_, _, rfl⟩
  | invalid => exact ⟨_, _, rfl⟩
  | error => exact ⟨_, _, rfl⟩

/-- How the loops that connect blocks towards `m` end early: above the old tip, or at an invalid block. -/
inductive EndsEarly (src : BlockSource) (orc : Oracle) (old : Option Ptr) (m : Ptr) (s s' : ChainState) : Prop where
  | better (p : Ptr) (climb : Climb src orc s s') (tip : s'.tip = some p) (anc : s.index.IsAnc p m)
      (work : ∀ t, old = some t → s.index.work t < s.index.work p)
  | invalid (s₁ : ChainState) (p : Ptr) (n : Nat) (climb : Climb src orc s s₁) (parent : s.index.pprev p = s₁.tip)
      (anc : s.index.IsAnc p m) (unmarked : (s.status p).failed = false) (verdict : orc.connect n p = .invalid)
      (fails : Fails s₁ s' p)

theorem EndsEarly.after {old : Option Ptr} (hc : Climb src orc s s') (h : EndsEarly src orc old m s' s'') :
    EndsEarly src orc old m s s'' := by
  cases h with
  | better p climb tip anc work =>
    rw [hc.frame.index] at anc work
    exact .better p (hc.trans climb) tip anc work
  | invalid s₁ p n climb parent anc unmarked verdict fails =>
    rw [hc.frame.index] at anc parent
    rw [hc.failed] at unmarked
    exact .invalid s₁ p n (hc.trans climb) parent anc unmarked verdict fails

theorem Climb.keeps (h : Climb src orc s s') (hs : Consistent src s) (hm : m ∈ s.setBlockIndexCandidates)
    (ht : ∀ t, s'.tip = some t → s.index.IsAnc t m) : m ∈ s'.setBlockIndexCandidates := by
  refine (h.cand m).mpr ⟨hm, ?_⟩
  rintro ⟨t, ht', hlt⟩
  rw [h.frame.workLess, hs.not_workLess_anc (hs.wf.candidates m hm) (hs.sound m hm).1 (ht t ht')] at hlt
  cases hlt

theorem connectBatch_spec (horc : orc.NoErrors) (old : Option Ptr) (back : Ptr) : ∀ {l : List Ptr} {s : ChainState},
    Consistent src s → m ∈ s.setBlockIndexCandidates → Ascends s.index s.tip l →
    (∀ p ∈ l, s.index.IsAnc p m ∧ (s.status p).failed = false) → ∃ r s', connectBatch orc old back l s = some (r, s') ∧
      ((r = .through ∧ Climb src orc s s' ∧ s'.tip = l.getLast?.or s.tip) ∨ (r = .left ∧ EndsEarly src orc old m s s'))
  | [], s, hs, _, _, _ => ⟨.through, s, rfl, Or.inl ⟨rfl, .refl hs, rfl⟩⟩
  | p :: l, s, hs, hm, ⟨hpar, hasc⟩, hl => by
    obtain ⟨hpm, hf⟩ := hl p List.mem_cons_self
    have hp := s.index.rooted.anc_mem (hs.wf.candidates m hm) hpm
    obtain ⟨r, s₁, hr⟩ := connectTip_some orc hpar
    obtain ⟨-, hverdict, hcases⟩ := connectTip_cases hs.wf.active hp hr
    unfold connectBatch
    rw [hr]
    rcases hcases with ⟨rfl, rfl⟩ | ⟨rfl, rfl⟩ | ⟨rfl, -⟩
    · obtain ⟨hprune, hclimb, htip⟩ := climb_connected hs hpar hf hverdict hm hpm
      dsimp only
      rw [hprune]
      dsimp only
      by_cases hbetter : ∀ t, old = some t → s.index.work t < s.index.work p
      · refine ⟨.left, _, if_pos ?_, Or.inr ⟨rfl, .better p hclimb htip hpm hbetter⟩⟩
        cases old with
        | none => rfl
        | some t => exact decide_eq_true (hbetter t rfl)
      · rw [if_neg]
        swap
        · intro h
          refine hbetter fun t ht => ?_
          rw [ht] at h
          exact of_decide_eq_true h
        have hm' := hclimb.keeps hs hm fun t ht => by
          rw [htip] at ht
          cases ht
          exact hpm
        obtain ⟨r, s', hr', hres⟩ := connectBatch_spec horc old back (l := l) hclimb.cons hm' (by rw [htip]; exact hasc)
          (fun q hq => by rw [hclimb.failed]; exact hl q (List.mem_cons_of_mem _ hq))
        refine ⟨r, s', hr', ?_⟩
        rcases hres with ⟨hthrough, hclimb', htip'⟩ | ⟨hleft, hend⟩
        · refine Or.inl ⟨hthrough, hclimb.trans hclimb', ?_⟩
          rw [htip', htip]
          cases l with
          | nil => rfl
          | cons y l => rw [List.getLast?_cons_cons, List.getLast?_eq_some_getLast (List.cons_ne_nil y l)]; rfl
        · exact Or.inr ⟨hleft, hend.after hclimb⟩
    · exact ⟨.left, _, rfl, Or.inr ⟨rfl,
        .invalid s p s.nCalls (.refl hs) hpar hpm hf hverdict (fails_invalidBlockFound hs.wf p back)⟩⟩
    · exact absurd hverdict (horc.connect _ _)

theorem Stands.eq_top {t : BlockIndex} {base : Option Ptr} (h : Stands t base m (t.nHeight m + 1))
    (hm : m ∈ t.mapBlockIndex) : base = some m := by
  cases base with
  | none => exact absurd (show t.nHeight m + 1 = 0 from h) (Nat.succ_ne_zero _)
  | some b => rw [t.rooted.anc_eq hm h.1 (Nat.le_of_eq (Nat.succ.inj h.2).symm)]

theorem Stands.to_anc {t : BlockIndex} {base : Option Ptr} {next : Nat} (h : Stands t base m next)
    (hm : m ∈ t.mapBlockIndex) (ha : t.IsAnc p m) (hle : next ≤ t.nHeight p + 1) : Stands t base p next := by
  cases base with
  | none => exact h
  | some b =>
    obtain ⟨hb, hbh⟩ := h
    refine ⟨?_, hbh⟩
    rcases hb.total ha with hbp | hpb
    · exact hbp
    · rw [t.rooted.anc_eq (t.rooted.anc_mem hm hb) hpb (by omega)]
      exact .refl b

theorem connectBatches_spec (horc : orc.NoErrors) (old : Option Ptr) : ∀ (fuel next : Nat) {s : ChainState},
    Consistent src s → m ∈ s.setBlockIndexCandidates → (∀ a, s.index.IsAnc a m → (s.status a).failed = false) →
    Stands s.index s.tip m next → next ≤ s.index.nHeight m + 1 → s.index.nHeight m + 1 ≤ next + fuel →
    ∃ s', connectBatches orc old m fuel next s = some (true, s') ∧
      ((Climb src orc s s' ∧ s'.tip = some m) ∨ EndsEarly src orc old m s s')
  | 0, next, s, hs, hm, _, hst, hle, hfuel => by
    obtain rfl : next = s.index.nHeight m + 1 := by omega
    exact ⟨s, rfl, Or.inl ⟨.refl hs, hst.eq_top (hs.wf.candidates m hm)⟩⟩
  | fuel + 1, next, s, hs, hm, huse, hst, hle, hfuel => by
    have hmm := hs.wf.candidates m hm
    unfold connectBatches
    by_cases htop : next = s.index.nHeight m + 1
    · rw [if_pos htop]
      subst htop
      exact ⟨s, rfl, Or.inl ⟨.refl hs, hst.eq_top hmm⟩⟩
    · rw [if_neg htop]
      obtain ⟨p, hpm, hph⟩ := s.index.rooted.exists_at hmm (Nat.min_le_right (next + 31) (s.index.nHeight m))
      have hp := s.index.rooted.anc_mem hmm hpm
      have hph' : s.index.nHeight p = min (next + 31) (s.index.nHeight m) := hph
      dsimp only
      rw [(BlockIndex.getAncestor_some_iff hmm).mpr ⟨hpm, hph⟩]
      obtain ⟨hasc, hlast⟩ := ascends_path p hp (hst.to_anc hmm hpm (by omega)) (by omega)
      obtain ⟨r, s₁, hr, hres⟩ := connectBatch_spec horc old
        (((s.index.path p).takeWhile fun q => s.index.nHeight q + 1 ≠ next).getLastD p) hs hm hasc (fun q hq => by
          have hq' := (List.takeWhile_prefix _).subset (List.mem_reverse.mp hq)
          have hqm := ((BlockIndex.mem_path hp).mp hq').trans hpm
          exact ⟨hqm, huse q hqm⟩)
      dsimp only
      rw [hr]
      rcases hres with ⟨rfl, hclimb, htip⟩ | ⟨rfl, hend⟩
      · rw [hlast] at htip
        have hm' := hclimb.keeps hs hm fun t ht => by
          rw [htip] at ht
          cases ht
          exact hpm
        have hindex := hclimb.frame.index
        obtain ⟨s', hs', hres⟩ := connectBatches_spec horc old fuel (min (next + 31) (s.index.nHeight m) + 1)
          hclimb.cons hm'
          (fun a ha => by rw [hindex] at ha; rw [hclimb.failed]; exact huse a ha)
          (by rw [hindex, htip]; exact ⟨hpm, by rw [hph']⟩) (by rw [hindex]; omega) (by rw [hindex]; omega)
        refine ⟨s', hs', ?_⟩
        rcases hres with ⟨hclimb', htip'⟩ | hend
        · exact Or.inl ⟨hclimb.trans hclimb', htip'⟩
        · exact Or.inr (hend.after hclimb)
      · exact ⟨s₁, rfl, Or.inr hend⟩

/-- `s₁` is `s` with the active chain cut at an ancestor of the tip. -/
structure Lowered (src : BlockSource) (s s₁ : ChainState) : Prop where
  index : s₁.index = s.index
  status : s₁.status = s.status
  cand : s₁.setBlockIndexCandidates = s.setBlockIndexCandidates
  frame : Frame s s₁
  cons : Consistent src s₁
  chain : ∀ a, s₁.chainActive.contains s.index a = true → s.chainActive.contains s.index a = true
  tip : s.tip ≠ none → s₁.tip ≠ none

theorem activateBestChainStep_spec (horc : orc.NoErrors) (hs : Consistent src s) (hm : MostWork s m) : ∃ s₁ s',
    activateBestChainStep orc m s = some (true, s') ∧ Lowered src s s₁ ∧
      ((Climb src orc s₁ s' ∧ s'.tip = some m) ∨ EndsEarly src orc s.tip m s₁ s') := by
  have hmm := hs.wf.candidates m hm.mem
  unfold activateBestChainStep
  rcases hs.wf.active.tip_cases with ⟨hchain, htip⟩ | ⟨t, ht, hchain, htip⟩
  · have hfork : s.chainActive.findFork s.index m = none := by
      rw [hchain]
      exact if_pos (Nat.zero_le _)
    have hlen : s.chainActive.vChain.length = 0 := by rw [hchain]; rfl
    rw [hfork, hlen]
    obtain ⟨s', hs', hres⟩ := connectBatches_spec horc s.tip (s.index.nHeight m + 1) 0 hs hm.mem hm.usable
      (by rw [htip]; rfl) (Nat.zero_le _) (by omega)
    exact ⟨s, s', hs', ⟨rfl, rfl, rfl, .refl s, hs, fun _ h => h, fun h => h⟩, hres⟩
  · rcases CChain.findFork_ofTip ht hmm with ⟨f, hfork, hft, hfm, -⟩ | ⟨-, hapart⟩
    · obtain ⟨n, hn⟩ := disconnectTo_spec horc.disconnect s.chainActive.vChain.length hs.wf.active htip hft
        (by rw [hchain, CChain.length_ofTip ht]; omega)
      have hfm' := s.index.rooted.anc_mem ht hft
      have hle := s.index.rooted.anc_le hmm hfm
      have hcons := hs.disconnectedTo htip hft n
      obtain ⟨s', hs', hres⟩ := connectBatches_spec horc s.tip (s.index.nHeight m + 1) (s.index.nHeight f + 1)
        (s := s.disconnectedTo f n) hcons hm.mem hm.usable
        (by rw [tip_disconnectedTo hfm']; exact ⟨hfm, rfl⟩) (show s.index.nHeight f + 1 ≤ s.index.nHeight m + 1 by omega)
        (show s.index.nHeight m + 1 ≤ _ by omega)
      rw [hchain, hfork, ← hchain]
      dsimp only
      rw [hn]
      refine ⟨s.disconnectedTo f n, s', hs', ⟨rfl, rfl, rfl, .of_status rfl rfl rfl, hcons, fun a ha => ?_, fun _ => ?_⟩, hres⟩
      · have haf : s.index.IsAnc a f := (CChain.contains_iff hfm').mp ha
        exact (hs.wf.active.contains_iff htip).mpr (haf.trans hft)
      · rw [tip_disconnectedTo hfm']
        exact Option.some_ne_none f
    · obtain ⟨g, hgt, hgm⟩ := hs.common_root ht hmm
      exact absurd hgt (hapart g hgm)

end ChainState

end DigiWage
