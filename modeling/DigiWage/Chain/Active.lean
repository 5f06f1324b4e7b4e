import DigiWage.Chain.State
import Mathlib.Data.List.TakeWhile

/-!
# The active chain

`chainActive` is the path from the root to its tip (`Active`). Then its members are the ancestors of the tip
(`contains_iff`), `SetTip` makes it the path to the new tip, wherever that is (`setTip_ofTip`), and `FindFork` returns the last
common ancestor (`findFork_ofTip`). `disconnectTip_cases` and `connectTip_cases` say what a move of the tip can do.
-/

namespace DigiWage

open Lib

namespace CChain

/-- The path from the root to `p`, as a chain. -/
def ofTip (t : BlockIndex) (p : Ptr) : CChain := ⟨(t.path p).reverse.map some⟩

variable {t : BlockIndex} {p q a : Ptr}

theorem length_ofTip (hp : p ∈ t.mapBlockIndex) : (ofTip t p).vChain.length = t.nHeight p + 1 := by
  unfold ofTip
  rw [List.length_map, List.length_reverse]
  exact t.rooted.length_path hp

theorem get_ofTip (hp : p ∈ t.mapBlockIndex) (i : Nat) :
    (ofTip t p).get i = some a ↔ t.IsAnc a p ∧ t.nHeight a = i := by
  rw [← t.rooted.getElem?_reverse_path hp]
  unfold get ofTip
  rw [List.getElem?_map]
  show ((t.path p).reverse[i]?.map some).join = some a ↔ (t.path p).reverse[i]? = some a
  cases (t.path p).reverse[i]? with
  | none => simp
  | some x => simp

/-- The chain contains the ancestors of its tip. -/
theorem contains_iff (hp : p ∈ t.mapBlockIndex) : (ofTip t p).contains t a = true ↔ t.IsAnc a p := by
  unfold contains
  rw [beq_iff_eq, get_ofTip hp]
  simp

theorem tip_ofTip (hp : p ∈ t.mapBlockIndex) : (ofTip t p).tip = some p := by
  have hget := (get_ofTip (a := p) hp (t.nHeight p)).mpr ⟨.refl p, rfl⟩
  unfold tip
  rw [List.getLast?_eq_getElem?, length_ofTip hp]
  exact hget

theorem path_head (hp : p ∈ t.mapBlockIndex) : ∃ l, t.path p = p :: l := by
  cases h : t.pprev p with
  | none => exact ⟨[], t.path_none hp h⟩
  | some q => exact ⟨t.path q, t.path_some hp h⟩

/-- A chain that holds the ancestors of each entry that it holds. -/
def Closed (t : BlockIndex) (v : List (Option Ptr)) : Prop :=
  ∀ a i, v[i]? = some (some a) → a ∈ t.mapBlockIndex ∧ t.nHeight a = i ∧ ∀ b, t.IsAnc b a → v[t.nHeight b]? = some (some b)

theorem getElem?_ofTip (hp : p ∈ t.mapBlockIndex) {i : Nat} :
    (ofTip t p).vChain[i]? = some (some a) ↔ t.IsAnc a p ∧ t.nHeight a = i := by
  rw [← t.rooted.getElem?_reverse_path hp, ofTip, List.getElem?_map, Option.map_eq_some_iff]
  constructor
  · rintro ⟨b, hb, heq⟩
    rw [← Option.some.inj heq]
    exact hb
  · exact fun h => ⟨a, h, rfl⟩

theorem closed_ofTip (hp : p ∈ t.mapBlockIndex) : Closed t (ofTip t p).vChain := by
  intro a i h
  obtain ⟨ha, hi⟩ := (getElem?_ofTip hp).mp h
  exact ⟨t.rooted.anc_mem hp ha, hi, fun b hb => (getElem?_ofTip hp).mpr ⟨hb.trans ha, rfl⟩⟩

theorem getElem?_resize {v : List (Option Ptr)} {n i : Nat} : (resize v n)[i]? = some (some a) ↔ i < n ∧ v[i]? = some (some a) := by
  unfold resize
  rw [List.getElem?_append, List.length_take]
  by_cases hi : i < min n v.length
  · rw [if_pos hi, List.getElem?_take_of_lt (by omega)]
    exact ⟨fun h => ⟨by omega, h⟩, fun h => h.2⟩
  · rw [if_neg hi, List.getElem?_replicate]
    constructor
    · split
      · exact fun h => by cases h
      · exact fun h => by cases h
    · rintro ⟨hn, h⟩
      have := (List.getElem?_eq_some_iff.mp h).1
      omega

theorem closed_resize {v : List (Option Ptr)} (h : Closed t v) (n : Nat) : Closed t (resize v n) := by
  intro a i ha
  obtain ⟨hi, ha⟩ := getElem?_resize.mp ha
  obtain ⟨hmem, rfl, hanc⟩ := h a i ha
  refine ⟨hmem, rfl, fun b hb => getElem?_resize.mpr ⟨?_, hanc b hb⟩⟩
  exact (t.rooted.anc_le hmem hb).trans_lt hi

theorem setTipLoop_spec (hp : p ∈ t.mapBlockIndex) : ∀ v : List (Option Ptr), t.nHeight p < v.length →
    (∀ a ∈ t.mapBlockIndex, t.nHeight a ≤ t.nHeight p → v[t.nHeight a]? = some (some a) →
      ∀ b, t.IsAnc b a → v[t.nHeight b]? = some (some b)) →
    (setTipLoop t (t.path p) v).length = v.length ∧ (∀ i, t.nHeight p < i → (setTipLoop t (t.path p) v)[i]? = v[i]?) ∧
      ∀ b, t.IsAnc b p → (setTipLoop t (t.path p) v)[t.nHeight b]? = some (some b) := by
  refine t.rooted.induct_on (C := fun p => ∀ v : List (Option Ptr), t.nHeight p < v.length →
    (∀ a ∈ t.mapBlockIndex, t.nHeight a ≤ t.nHeight p → v[t.nHeight a]? = some (some a) →
      ∀ b, t.IsAnc b a → v[t.nHeight b]? = some (some b)) →
    (setTipLoop t (t.path p) v).length = v.length ∧ (∀ i, t.nHeight p < i → (setTipLoop t (t.path p) v)[i]? = v[i]?) ∧
      ∀ b, t.IsAnc b p → (setTipLoop t (t.path p) v)[t.nHeight b]? = some (some b)) (fun p hp ih v hlen hclosed => ?_) p hp
  by_cases hset : v[t.nHeight p]? = some (some p)
  · obtain ⟨l, hl⟩ := path_head hp
    rw [hl, setTipLoop, if_pos hset]
    exact ⟨rfl, fun _ _ => rfl, hclosed p hp le_rfl hset⟩
  · have hself : (v.set (t.nHeight p) (some p))[t.nHeight p]? = some (some p) := List.getElem?_set_self hlen
    cases hpar : t.pprev p with
    | none =>
      rw [t.path_none hp hpar, setTipLoop, if_neg hset, setTipLoop]
      refine ⟨List.length_set, fun i hi => List.getElem?_set_ne (by omega), fun b hb => ?_⟩
      rcases anc_iff.mp hb with rfl | ⟨q, hq, -⟩
      · exact hself
      · rw [hpar] at hq
        cases hq
    | some q =>
      have hq := t.rooted.mem hp hpar
      have hsucc := t.rooted.succ hp hpar
      have hkeep : ∀ i, i ≤ t.nHeight q → (v.set (t.nHeight p) (some p))[i]? = v[i]? := fun i hi => List.getElem?_set_ne (by omega)
      obtain ⟨hl, habove, hanc⟩ := ih q hpar (v.set (t.nHeight p) (some p)) (by rw [List.length_set]; omega) (by
        intro a ha hle hget b hb
        have hba := t.rooted.anc_le ha hb
        rw [hkeep _ hle] at hget
        rw [hkeep _ (by omega)]
        exact hclosed a ha (by omega) hget b hb)
      rw [t.path_some hp hpar, setTipLoop, if_neg hset]
      refine ⟨by rw [hl, List.length_set], fun i hi => ?_, fun b hb => ?_⟩
      · rw [habove i (by omega), List.getElem?_set_ne (by omega)]
      · rcases anc_iff.mp hb with rfl | ⟨r, hr, hb⟩
        · rw [habove _ (by omega)]
          exact hself
        · rw [hpar] at hr
          cases hr
          exact hanc b hb

theorem eq_ofTip (hp : p ∈ t.mapBlockIndex) {v : List (Option Ptr)} (hlen : v.length = t.nHeight p + 1)
    (h : ∀ b, t.IsAnc b p → v[t.nHeight b]? = some (some b)) : v = (ofTip t p).vChain := by
  apply List.ext_getElem?
  intro i
  by_cases hi : i ≤ t.nHeight p
  · obtain ⟨b, hb, rfl⟩ := t.rooted.exists_at hp hi
    rw [h b hb, (getElem?_ofTip hp).mpr ⟨hb, rfl⟩]
  · rw [List.getElem?_eq_none (by omega), List.getElem?_eq_none (by rw [length_ofTip hp]; omega)]

theorem setTip_eq {c : CChain} (hc : Closed t c.vChain) (hp : p ∈ t.mapBlockIndex) : c.setTip t (some p) = ofTip t p := by
  have hresize := closed_resize hc (t.nHeight p + 1)
  have hlen : (resize c.vChain (t.nHeight p + 1)).length = t.nHeight p + 1 := by
    rw [resize, List.length_append, List.length_take, List.length_replicate]
    omega
  obtain ⟨hl, -, hanc⟩ := setTipLoop_spec hp _ (by omega) fun a _ _ hget b hb => (hresize a _ hget).2.2 b hb
  show (⟨setTipLoop t (t.path p) (resize c.vChain (t.nHeight p + 1))⟩ : CChain) = ofTip t p
  rw [eq_ofTip hp (hl.trans hlen) hanc]

theorem setTip_ofTip (hp : p ∈ t.mapBlockIndex) (hq : q ∈ t.mapBlockIndex) : (ofTip t p).setTip t (some q) = ofTip t q :=
  setTip_eq (closed_ofTip hp) hq

theorem setTip_empty (hp : p ∈ t.mapBlockIndex) : (⟨[]⟩ : CChain).setTip t (some p) = ofTip t p :=
  setTip_eq (fun a i h => by simp at h) hp

theorem ofTip_add {new : Ptr} {block : CBlockHeader} (hp : p ∈ t.mapBlockIndex) :
    ofTip (t.add new block) p = ofTip t p := by
  unfold ofTip
  rw [BlockIndex.path_add hp]

/-! ## The fork -/

theorem find_path {f : Ptr → Bool} (hq : q ∈ t.mapBlockIndex) :
    (∃ a, (t.path q).find? f = some a ∧ t.IsAnc a q ∧ f a = true ∧ ∀ b, t.IsAnc b q → f b = true → t.IsAnc b a) ∨
    ((t.path q).find? f = none ∧ ∀ b, t.IsAnc b q → f b = false) := by
  refine t.rooted.induct_on (C := fun q => (∃ a, (t.path q).find? f = some a ∧ t.IsAnc a q ∧ f a = true ∧
    ∀ b, t.IsAnc b q → f b = true → t.IsAnc b a) ∨ ((t.path q).find? f = none ∧ ∀ b, t.IsAnc b q → f b = false))
    (fun q hq ih => ?_) q hq
  cases hfq : f q with
  | true =>
    obtain ⟨l, hl⟩ := path_head hq
    refine Or.inl ⟨q, by rw [hl, List.find?_cons, hfq], .refl q, hfq, fun b hb _ => hb⟩
  | false =>
    cases hpar : t.pprev q with
    | none =>
      refine Or.inr ⟨by rw [t.path_none hq hpar, List.find?_cons, hfq]; rfl, fun b hb => ?_⟩
      rcases anc_iff.mp hb with rfl | ⟨r, hr, -⟩
      · exact hfq
      · rw [hpar] at hr
        cases hr
    | some r =>
      have hfind : (t.path q).find? f = (t.path r).find? f := by rw [t.path_some hq hpar, List.find?_cons, hfq]
      have hanc : ∀ b, t.IsAnc b q → f b = true → t.IsAnc b r := by
        intro b hb hfb
        obtain ⟨r', hr', hb'⟩ := hb.of_ne (by rintro rfl; rw [hfq] at hfb; cases hfb)
        rw [hpar] at hr'
        cases hr'
        exact hb'
      rw [hfind]
      rcases ih r hpar with ⟨a, ha, haq, hfa, hmax⟩ | ⟨hnone, hall⟩
      · exact Or.inl ⟨a, ha, .up hpar haq, hfa, fun b hb hfb => hmax b (hanc b hb hfb) hfb⟩
      · refine Or.inr ⟨hnone, fun b hb => ?_⟩
        by_contra hfb
        rw [Bool.not_eq_false] at hfb
        rw [hall b (hanc b hb hfb)] at hfb
        cases hfb

theorem findFork_ofTip (hp : p ∈ t.mapBlockIndex) (hq : q ∈ t.mapBlockIndex) :
    (∃ f, (ofTip t p).findFork t q = some f ∧ t.IsAnc f p ∧ t.IsAnc f q ∧
      ∀ b, t.IsAnc b p → t.IsAnc b q → t.IsAnc b f) ∨
    ((ofTip t p).findFork t q = none ∧ ∀ b, t.IsAnc b q → ¬ t.IsAnc b p) := by
  -- the search starts at `q`, or at its ancestor as high as the tip
  have hstart : ∃ r, t.IsAnc r q ∧ (ofTip t p).findFork t q = (t.path r).find? ((ofTip t p).contains t) ∧
      ∀ b, t.IsAnc b q → t.IsAnc b p → t.IsAnc b r := by
    unfold findFork
    rw [length_ofTip hp]
    split
    · rename_i hle
      obtain ⟨r, hr, hrh⟩ := t.rooted.exists_at hq (show t.nHeight p ≤ t.nHeight q by omega)
      have hanc := (BlockIndex.getAncestor_some_iff hq).mpr ⟨hr, hrh⟩
      simp only [hanc]
      refine ⟨r, hr, rfl, fun b hb hbp => ?_⟩
      rcases hb.total hr with h | h
      · exact h
      · have := t.rooted.anc_le hp hbp
        have hb' := t.rooted.anc_mem hp hbp
        rw [← t.rooted.anc_eq hb' h (by omega)]
        exact .refl _
    · exact ⟨q, .refl q, rfl, fun b hb _ => hb⟩
  obtain ⟨r, hr, heq, hbelow⟩ := hstart
  have hrm := t.rooted.anc_mem hq hr
  rw [heq]
  rcases find_path hrm with ⟨f, hf, hfr, hfc, hmax⟩ | ⟨hnone, hall⟩
  · refine Or.inl ⟨f, hf, (contains_iff hp).mp hfc, hfr.trans hr, fun b hbp hbq => ?_⟩
    exact hmax b (hbelow b hbq hbp) ((contains_iff hp).mpr hbp)
  · refine Or.inr ⟨hnone, fun b hb hbp => ?_⟩
    have := hall b (hbelow b hb hbp)
    rw [(contains_iff hp).mpr hbp] at this
    cases this

end CChain

namespace ChainState

/-- The active chain is empty or the path to its tip. -/
def Active (s : ChainState) : Prop :=
  s.chainActive = ⟨[]⟩ ∨ ∃ p ∈ s.index.mapBlockIndex, s.chainActive = CChain.ofTip s.index p

variable {s s' : ChainState} {p : Ptr} {orc : Oracle}

theorem Active.tip_cases (h : s.Active) : (s.chainActive = ⟨[]⟩ ∧ s.tip = none) ∨
    ∃ p ∈ s.index.mapBlockIndex, s.chainActive = CChain.ofTip s.index p ∧ s.tip = some p := by
  rcases h with h | ⟨p, hp, h⟩
  · exact Or.inl ⟨h, by rw [tip, h]; rfl⟩
  · exact Or.inr ⟨p, hp, h, by rw [tip, h]; exact CChain.tip_ofTip hp⟩

theorem Active.of_tip (h : s.Active) (ht : s.tip = some p) :
    p ∈ s.index.mapBlockIndex ∧ s.chainActive = CChain.ofTip s.index p := by
  rcases h.tip_cases with ⟨-, hn⟩ | ⟨q, hq, hc, hq'⟩
  · rw [ht] at hn
    cases hn
  · rw [ht] at hq'
    cases hq'
    exact ⟨hq, hc⟩

/-- What `DisconnectTip` can do. -/
theorem disconnectTip_cases (hact : s.Active) {ok : Bool} (h : s.disconnectTip orc = some (ok, s')) :
    ∃ p, s.tip = some p ∧ p ∈ s.index.mapBlockIndex ∧ orc.disconnect s.nCalls p = ok ∧
      ((ok = false ∧ s' = { s with nCalls := s.nCalls + 1 }) ∨ (ok = true ∧ ∃ q, s.index.pprev p = some q ∧
        s' = { s with nCalls := s.nCalls + 1, chainActive := CChain.ofTip s.index q })) := by
  unfold disconnectTip at h
  rcases hact.tip_cases with ⟨-, hn⟩ | ⟨p, hp, hc, hp'⟩
  · rw [hn] at h
    cases h
  · rw [hp'] at h
    refine ⟨p, hp', hp, ?_⟩
    simp only at h
    split at h
    · rename_i hd
      split at h
      · cases h
      · rename_i q hq
        cases h
        refine ⟨hd, Or.inr ⟨rfl, q, hq, ?_⟩⟩
        rw [hc, CChain.setTip_ofTip hp (s.index.rooted.mem hp hq)]
    · rename_i hd
      cases h
      exact ⟨by simpa using hd, Or.inl ⟨rfl, rfl⟩⟩

/-- The status of a block once it is connected. -/
def connectedStatus (s : ChainState) (p : Ptr) : BlockStatus :=
  if s.index.pprev p = none then s.status p
  else { s.status p with haveUndo := true }.raiseValidity BLOCK_VALID_SCRIPTS

/-- The state once `p` is connected. -/
def connected (s : ChainState) (p : Ptr) : ChainState :=
  { s with
    status := Function.update s.status p (s.connectedStatus p)
    chainActive := CChain.ofTip s.index p
    nCalls := s.nCalls + 1 }

/-- What `ConnectTip` can do. -/
theorem connectTip_cases (hact : s.Active) (hp : p ∈ s.index.mapBlockIndex) {r : ConnectResult}
    (h : s.connectTip orc p = some (r, s')) : s.index.pprev p = s.tip ∧ orc.connect s.nCalls p = r ∧
      ((r = .valid ∧ s' = s.connected p) ∨
        (r = .invalid ∧ s' = { s with nCalls := s.nCalls + 1 }.invalidBlockFound p) ∨
        (r = .error ∧ s' = { s with nCalls := s.nCalls + 1 })) := by
  unfold connectTip at h
  split at h
  · rename_i hpar
    have hchain : s.chainActive.setTip s.index (some p) = CChain.ofTip s.index p := by
      rcases hact with hc | ⟨q, hq, hc⟩
      · rw [hc]
        exact CChain.setTip_empty hp
      · rw [hc]
        exact CChain.setTip_ofTip hq hp
    refine ⟨hpar, ?_⟩
    simp only at h
    split at h
    · rename_i hv
      cases h
      refine ⟨hv, Or.inl ⟨rfl, ?_⟩⟩
      rw [hchain]
      unfold connected connectedStatus setStatus
      split
      · simp only [Function.update_eq_self]
      · rfl
    · rename_i hv
      cases h
      exact ⟨hv, Or.inr (Or.inl ⟨rfl, rfl⟩)⟩
    · rename_i hv
      cases h
      exact ⟨hv, Or.inr (Or.inr ⟨rfl, rfl⟩)⟩
  · cases h

theorem connectedStatus_spec (s : ChainState) (p : Ptr) :
    (s.connectedStatus p).failedValid = (s.status p).failedValid ∧
    (s.connectedStatus p).failedChild = (s.status p).failedChild ∧
    (s.connectedStatus p).haveData = (s.status p).haveData ∧ (s.connectedStatus p).nTx = (s.status p).nTx ∧
    (s.connectedStatus p).nChainTx = (s.status p).nChainTx ∧
    (s.connectedStatus p).nSequenceId = (s.status p).nSequenceId ∧
    (s.status p).nValid ≤ (s.connectedStatus p).nValid := by
  unfold connectedStatus BlockStatus.raiseValidity
  dsimp only
  split
  · exact ⟨rfl, rfl, rfl, rfl, rfl, rfl, Nat.le_refl _⟩
  · split
    · exact ⟨rfl, rfl, rfl, rfl, rfl, rfl, Nat.le_refl _⟩
    · split
      · rename_i hlt
        exact ⟨rfl, rfl, rfl, rfl, rfl, rfl, Nat.le_of_lt hlt⟩
      · exact ⟨rfl, rfl, rfl, rfl, rfl, rfl, Nat.le_refl _⟩

/-! ## Well-formed states -/

/-- The active chain is a path, and the sets hold entries of the index. -/
structure WellFormed (s : ChainState) : Prop where
  active : s.Active
  candidates : ∀ p ∈ s.setBlockIndexCandidates, p ∈ s.index.mapBlockIndex
  unlinked : ∀ l ∈ s.mapBlocksUnlinked, l.2 ∈ s.index.mapBlockIndex

theorem mem_insertCandidate {q : Ptr} : q ∈ (s.insertCandidate p).setBlockIndexCandidates ↔
    q = p ∨ q ∈ s.setBlockIndexCandidates := by
  unfold insertCandidate
  dsimp only
  split
  · rename_i hp
    constructor
    · exact Or.inr
    · rintro (rfl | h)
      · exact hp
      · exact h
  · exact List.mem_cons

theorem mem_eraseCandidates {q : Ptr} {l : List Ptr} : q ∈ (s.eraseCandidates l).setBlockIndexCandidates ↔
    q ∈ s.setBlockIndexCandidates ∧ q ∉ l := by
  unfold eraseCandidates
  rw [List.mem_filter, decide_eq_true_eq]

theorem foldl_insertCandidate : ∀ (l : List Ptr) (s : ChainState),
    ∃ c, l.foldl insertCandidate s = { s with setBlockIndexCandidates := c } ∧
      ∀ q, q ∈ c ↔ q ∈ l ∨ q ∈ s.setBlockIndexCandidates
  | [], s => ⟨s.setBlockIndexCandidates, rfl, fun q => by simp⟩
  | p :: l, s => by
    obtain ⟨c, heq, hc⟩ := foldl_insertCandidate l (s.insertCandidate p)
    refine ⟨c, heq, fun q => ?_⟩
    rw [hc, mem_insertCandidate, List.mem_cons]
    tauto

theorem invalidChainFound_eq (s : ChainState) (p : Ptr) :
    ∃ b, s.invalidChainFound p = { s with pindexBestInvalid := b } := by
  unfold invalidChainFound
  split
  · exact ⟨_, rfl⟩
  · split
    · exact ⟨_, rfl⟩
    · exact ⟨s.pindexBestInvalid, rfl⟩

/-! ## The branch of a candidate -/

theorem Active.contains_anc (h : s.Active) {a : Ptr} (ha : s.index.IsAnc a p)
    (hp : s.chainActive.contains s.index p = true) : s.chainActive.contains s.index a = true := by
  rcases h with hc | ⟨tip, htip, hc⟩
  · rw [hc] at hp
    cases hp
  · rw [hc, CChain.contains_iff htip] at hp ⊢
    exact ha.trans hp

theorem Active.contains_iff (h : s.Active) {tip : Ptr} (ht : s.tip = some tip) :
    s.chainActive.contains s.index p = true ↔ s.index.IsAnc p tip := by
  obtain ⟨hm, hc⟩ := h.of_tip ht
  rw [hc]
  exact CChain.contains_iff hm

theorem mem_branch (h : s.Active) (hp : p ∈ s.index.mapBlockIndex) {q : Ptr} :
    q ∈ s.branch p ↔ s.index.IsAnc q p ∧ s.chainActive.contains s.index q = false := by
  unfold branch BlockIndex.path
  rw [s.index.rooted.mem_takeWhile_path hp]
  constructor
  · rintro ⟨hq, hall⟩
    exact ⟨hq, by simpa using hall q (.refl q) hq⟩
  · rintro ⟨hq, hc⟩
    refine ⟨hq, fun b hqb _ => ?_⟩
    by_contra hb
    rw [h.contains_anc hqb (by simpa using hb)] at hc
    cases hc

theorem mem_above (h : s.Active) (hp : p ∈ s.index.mapBlockIndex) {test q : Ptr} (ht : test ∈ s.branch p) :
    q ∈ (s.branch p).takeWhile (· ≠ test) ↔ s.index.IsAnc q p ∧ s.index.IsAnc test q ∧ q ≠ test := by
  obtain ⟨htp, htc⟩ := (mem_branch h hp).mp ht
  unfold branch BlockIndex.path
  rw [List.takeWhile_takeWhile, s.index.rooted.mem_takeWhile_path hp]
  simp only [decide_eq_true_eq, Bool.not_eq_eq_eq_not, Bool.not_true]
  constructor
  · rintro ⟨hq, hall⟩
    refine ⟨hq, ?_, (hall q (.refl q) hq).1⟩
    rcases hq.total htp with hqt | htq
    · exact absurd rfl (hall test hqt htp).1
    · exact htq
  · rintro ⟨hq, htq, hne⟩
    refine ⟨hq, fun b hqb hbp => ⟨?_, ?_⟩⟩
    · rintro rfl
      exact hne (s.index.rooted.anc_antisymm (s.index.rooted.anc_mem hp htp) hqb htq)
    · by_contra hb
      rw [h.contains_anc (htq.trans hqb) (by simpa using hb)] at htc
      cases htc

end ChainState

end DigiWage
