import DigiWage.Chain.Reorg
import DigiWage.Lib.Measure

/-!
# `ActivateBestChain`

The loop of `ActivateBestChain` without system errors. A round ends the loop (`Exits`) or goes on (`Continues`), and a
round that goes on has made the tip better or marked one more block, so that `rank` goes down: the loop ends whatever
`ConnectBlock` says.
-/

namespace DigiWage

open Lib

namespace ChainState

variable {src : BlockSource} {s s' s'' s₁ : ChainState} {p q m t : Ptr} {orc : Oracle}

/-! ## The measure -/

/-- The number of entries that are not marked. -/
def unmarked (s : ChainState) : Nat := s.index.mapBlockIndex.countP fun q => !(s.status q).failed

/-- The entry compares above the tip, if there is one. -/
def ahead (s : ChainState) (q : Ptr) : Bool :=
  match s.tip with
  | none => true
  | some t => s.workLess t q

/-- The measure of the loop: the entries that are not marked, and then the entries above the tip. -/
def rank (s : ChainState) : Nat :=
  s.unmarked * (s.index.mapBlockIndex.length + 1) + s.index.mapBlockIndex.countP s.ahead

theorem rank_le_of (hi : s'.index = s.index) (hf : ∀ q, (s.status q).failed = true → (s'.status q).failed = true)
    (ha : ∀ q, s'.ahead q = true → s.ahead q = true) : s'.rank ≤ s.rank := by
  unfold rank unmarked
  rw [hi]
  refine Nat.add_le_add (Nat.mul_le_mul_right _ (List.countP_mono_left fun q _ hq => ?_))
    (List.countP_mono_left fun q _ => ha q)
  cases hfq : (s.status q).failed with
  | false => rfl
  | true =>
    rw [hf q hfq] at hq
    cases hq

theorem rank_lt_of_ahead (hi : s'.index = s.index) (hf : ∀ q, (s'.status q).failed = (s.status q).failed)
    (ha : ∀ q, s'.ahead q = true → s.ahead q = true) (hp : p ∈ s.index.mapBlockIndex) (hp₁ : s.ahead p = true)
    (hp₂ : s'.ahead p = false) : s'.rank < s.rank := by
  have hlt := countP_lt hp₁ hp₂ (fun q _ => ha q) hp
  unfold rank unmarked
  rw [hi]
  simp only [hf]
  omega

theorem rank_lt_of_mark (hi : s'.index = s.index) (hf : ∀ q, (s.status q).failed = true → (s'.status q).failed = true)
    (hp : p ∈ s.index.mapBlockIndex) (hp₁ : (s.status p).failed = false) (hp₂ : (s'.status p).failed = true) :
    s'.rank < s.rank := by
  have hlt : s'.unmarked < s.unmarked := by
    unfold unmarked
    rw [hi]
    refine countP_lt (by rw [hp₁]; rfl) (by rw [hp₂]; rfl) (fun q _ hq => ?_) hp
    cases hfq : (s.status q).failed with
    | false => rfl
    | true =>
      rw [hf q hfq] at hq
      cases hq
  have hle : s.index.mapBlockIndex.countP s'.ahead ≤ s.index.mapBlockIndex.length := List.countP_le_length
  have hmul := Nat.mul_le_mul_right (s.index.mapBlockIndex.length + 1) (Nat.succ_le_of_lt hlt)
  rw [Nat.succ_mul] at hmul
  unfold rank
  rw [hi]
  omega

theorem Purge.ahead (h : Purge s s') : s'.ahead = s.ahead := by
  funext q
  unfold ChainState.ahead
  rw [h.tip]
  simp only [h.frame.workLess]

/-! ## Rounds -/

theorem not_contains_child (h : Consistent src s) (hp : p ∈ s.index.mapBlockIndex) (hpar : s.index.pprev p = s.tip) :
    s.chainActive.contains s.index p = false := by
  rw [Bool.eq_false_iff]
  intro hc
  rcases h.wf.active.tip_cases with ⟨hchain, -⟩ | ⟨t, ht, -, htip⟩
  · rw [hchain] at hc
    cases hc
  · have hle := s.index.rooted.anc_le ht ((h.wf.active.contains_iff htip).mp hc)
    have hsucc := s.index.rooted.succ hp (hpar.trans htip)
    omega

theorem EndsEarly.consistent {old : Option Ptr} (h : EndsEarly src orc old m s s') (hm : m ∈ s.index.mapBlockIndex) :
    Consistent src s' := by
  cases h with
  | better p climb tip anc work => exact climb.cons
  | invalid s₁ p n climb parent anc unmarked verdict fails =>
    have hindex := climb.frame.index
    refine fails.consistent climb.cons (not_contains_child climb.cons ?_ ?_)
    · rw [hindex]
      exact s.index.rooted.anc_mem hm anc
    · rw [hindex]
      exact parent

/-- How the last round of the loop goes from `s` to `s'`: no candidate is left, the tip is the best one, or becomes it. -/
inductive Exits (src : BlockSource) (orc : Oracle) (s s' : ChainState) : Prop where
  | empty (purge : Purge s s') (cand : s'.setBlockIndexCandidates = [])
  | stays (m : Ptr) (purge : Purge s s') (most : MostWork s' m) (tip : s'.tip = some m)
  | reaches (s₀ s₁ : ChainState) (m : Ptr) (purge : Purge s s₀) (most : MostWork s₀ m) (lowered : Lowered src s₀ s₁)
      (climb : Climb src orc s₁ s') (tip : s'.tip = some m)

/-- How another round of the loop goes from `s` to `s'`. -/
inductive Continues (src : BlockSource) (orc : Oracle) (s s' : ChainState) : Prop where
  | mk (s₀ s₁ : ChainState) (m : Ptr) (purge : Purge s s₀) (most : MostWork s₀ m) (other : s₀.tip ≠ some m)
      (lowered : Lowered src s₀ s₁) (ends : EndsEarly src orc s₀.tip m s₁ s')

theorem round_spec (horc : orc.NoErrors) (hs : Consistent src s) :
    (∃ s', (∀ fuel, activateBestChain orc (fuel + 1) s = .done s') ∧ Exits src orc s s') ∨
    ∃ s', (∀ fuel, activateBestChain orc (fuel + 1) s = activateBestChain orc fuel s') ∧ Continues src orc s s' := by
  obtain ⟨r, s₀, hfind, hpurge, hr⟩ := findMostWorkChain_spec hs
  have hs₀ := hpurge.consistent hs
  cases r with
  | none =>
    refine Or.inl ⟨s₀, fun fuel => ?_, .empty hpurge hr⟩
    unfold activateBestChain
    rw [hfind]
  | some m =>
    by_cases htip : s₀.tip = some m
    · refine Or.inl ⟨s₀, fun fuel => ?_, .stays m hpurge hr htip⟩
      unfold activateBestChain
      rw [hfind]
      exact if_pos htip
    · obtain ⟨s₁, s', hstep, hlow, hres⟩ := activateBestChainStep_spec horc hs₀ hr
      have hround : ∀ fuel, activateBestChain orc (fuel + 1) s =
          if s'.tip = some m then .done s' else activateBestChain orc fuel s' := by
        intro fuel
        rw [activateBestChain, hfind]
        dsimp only
        rw [if_neg htip, hstep]
      rcases hres with ⟨hclimb, htip'⟩ | hend
      · exact Or.inl ⟨s', fun fuel => by rw [hround, if_pos htip'], .reaches s₀ s₁ m hpurge hr hlow hclimb htip'⟩
      · by_cases htip' : s'.tip = some m
        · refine Or.inl ⟨s', fun fuel => by rw [hround, if_pos htip'], ?_⟩
          cases hend with
          | better p climb tip anc work => exact .reaches s₀ s₁ m hpurge hr hlow climb htip'
          | invalid s₂ p n climb parent anc unmarked verdict fails =>
            -- the tip is below the invalid block
            have hm := hs₀.wf.candidates m hr.mem
            rw [hlow.index] at parent anc
            have hp := s₀.index.rooted.anc_mem hm anc
            have htip₂ : s₂.tip = some m := by rw [← htip', tip, tip, fails.chainActive]
            have hsucc := s₀.index.rooted.succ hp (parent.trans htip₂)
            have hle := s₀.index.rooted.anc_le hm anc
            omega
        · exact Or.inr ⟨s', fun fuel => by rw [hround, if_neg htip'], ⟨s₀, s₁, m, hpurge, hr, htip, hlow, hend⟩⟩

theorem Continues.consistent (h : Continues src orc s s') (hs : Consistent src s) : Consistent src s' := by
  obtain ⟨s₀, s₁, m, hpurge, hmost, -, hlow, hend⟩ := h
  refine hend.consistent ?_
  rw [hlow.index]
  exact (hpurge.consistent hs).wf.candidates m hmost.mem

theorem Exits.consistent (h : Exits src orc s s') (hs : Consistent src s) : Consistent src s' := by
  cases h with
  | empty purge cand => exact purge.consistent hs
  | stays m purge most tip => exact purge.consistent hs
  | reaches s₀ s₁ m purge most lowered climb tip => exact climb.cons

theorem Continues.rank_lt (h : Continues src orc s s') (hs : Consistent src s) : s'.rank < s.rank := by
  obtain ⟨s₀, s₁, m, hpurge, hmost, hother, hlow, hend⟩ := h
  have hs₀ := hpurge.consistent hs
  have hm := hs₀.wf.candidates m hmost.mem
  refine Nat.lt_of_lt_of_le ?_ (rank_le_of hpurge.frame.index hpurge.failed fun q hq => by rwa [hpurge.ahead] at hq)
  cases hend with
  | better p climb tip anc work =>
    have hframe := hlow.frame.trans climb.frame
    rw [hlow.index] at anc work
    have hahead : ∀ q, s'.ahead q = s₀.workLess p q := by
      intro q
      unfold ahead
      rw [tip]
      exact hframe.workLess p q
    have hp : s₀.ahead p = true := by
      unfold ahead
      cases ht : s₀.tip with
      | none => rfl
      | some t => exact workLess_of_work (work t ht)
    refine rank_lt_of_ahead hframe.index (fun q => ?_) (fun q hq => ?_) (s₀.index.rooted.anc_mem hm anc) hp ?_
    · rw [climb.failed, hlow.status]
    · rw [hahead] at hq
      unfold ahead at hp ⊢
      cases ht : s₀.tip with
      | none => rfl
      | some t =>
        rw [ht] at hp
        exact workLess_trans hp hq
    · rw [hahead]
      exact workLess_irrefl s₀ p
  | invalid s₂ p n climb parent anc unmarked verdict fails =>
    rw [hlow.index] at anc
    rw [hlow.status] at unmarked
    have hindex := (hlow.frame.trans climb.frame).trans fails.frame |>.index
    refine rank_lt_of_mark hindex (fun q hq => ?_) (s₀.index.rooted.anc_mem hm anc) unmarked fails.marked
    by_cases hqp : q = p
    · rw [hqp]
      exact fails.marked
    · rw [fails.flags q hqp, climb.failed, hlow.status]
      exact hq

/-! ## The loop -/

theorem activateBestChain_ends (horc : orc.NoErrors) (hs : Consistent src s) :
    ∃ s', ∀ fuel, s.rank < fuel → activateBestChain orc fuel s = .done s' := by
  generalize hn : s.rank = n
  induction n using Nat.strongRecOn generalizing s with
  | ind n ih =>
    rcases round_spec horc hs with ⟨s', hdone, -⟩ | ⟨s₁, hgo, hcont⟩
    · refine ⟨s', fun fuel hfuel => ?_⟩
      obtain ⟨k, rfl⟩ := Nat.exists_eq_succ_of_ne_zero (Nat.ne_of_gt (Nat.zero_lt_of_lt hfuel))
      exact hdone k
    · have hlt := hcont.rank_lt hs
      obtain ⟨s', hdone⟩ := ih s₁.rank (hn ▸ hlt) (hcont.consistent hs) rfl
      refine ⟨s', fun fuel hfuel => ?_⟩
      obtain ⟨k, rfl⟩ := Nat.exists_eq_succ_of_ne_zero (Nat.ne_of_gt (Nat.zero_lt_of_lt hfuel))
      exact (hgo k).trans (hdone k (by omega))

theorem activateBestChain_rule (horc : orc.NoErrors) {I : ChainState → Prop}
    (hround : ∀ s s', I s → Continues src orc s s' → I s') (hs : Consistent src s) (hI : I s) {fuel : Nat}
    (hdone : activateBestChain orc fuel s = .done s') : ∃ s₁, Consistent src s₁ ∧ I s₁ ∧ Exits src orc s₁ s' := by
  induction fuel generalizing s with
  | zero => cases hdone
  | succ fuel ih =>
    rcases round_spec horc hs with ⟨s₁, hend, hexit⟩ | ⟨s₁, hgo, hcont⟩
    · rw [hend] at hdone
      cases hdone
      exact ⟨s, hs, hI, hexit⟩
    · rw [hgo] at hdone
      exact ih (hcont.consistent hs) (hround s s₁ hI hcont) hdone

theorem activateBestChain_consistent (horc : orc.NoErrors) (hs : Consistent src s) {fuel : Nat}
    (hdone : activateBestChain orc fuel s = .done s') : Consistent src s' := by
  obtain ⟨s₁, hs₁, -, hexit⟩ :=
    activateBestChain_rule (I := fun _ => True) horc (fun _ _ _ _ => trivial) hs trivial hdone
  exact hexit.consistent hs₁

theorem activateBestChain_not_failed (horc : orc.NoErrors) (hs : Consistent src s) {fuel : Nat} :
    activateBestChain orc fuel s ≠ .failed s' := by
  induction fuel generalizing s with
  | zero => simp [activateBestChain]
  | succ fuel ih =>
    rcases round_spec horc hs with ⟨s₁, hexit, -⟩ | ⟨s₁, hgo, h⟩
    · rw [hexit]
      simp
    · rw [hgo]
      exact ih (h.consistent hs)

theorem Climb.tip_ne_none (h : Climb src orc s s') (ht : s.tip ≠ none) : s'.tip ≠ none := by
  obtain ⟨t, ht⟩ := Option.ne_none_iff_exists'.mp ht
  obtain ⟨t', ht', -⟩ := h.rises t ht
  rw [ht']
  exact Option.some_ne_none t'

theorem Continues.tip_ne_none (h : Continues src orc s s') (ht : s.tip ≠ none) : s'.tip ≠ none := by
  obtain ⟨s₀, s₁, m, hpurge, -, -, hlow, hend⟩ := h
  rw [← hpurge.tip] at ht
  cases hend with
  | better p climb tip anc work => exact climb.tip_ne_none (hlow.tip ht)
  | invalid s₂ p n climb parent anc unmarked verdict fails =>
    unfold tip
    rw [fails.chainActive]
    exact climb.tip_ne_none (hlow.tip ht)

theorem Exits.tip_ne_none (h : Exits src orc s s') (ht : s.tip ≠ none) : s'.tip ≠ none := by
  cases h with
  | empty purge cand => rwa [purge.tip]
  | stays m purge most tip => rwa [purge.tip]
  | reaches s₀ s₁ m purge most lowered climb tip =>
    rw [tip]
    exact Option.some_ne_none m

end ChainState

end DigiWage
