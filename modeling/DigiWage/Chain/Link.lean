import DigiWage.Chain.State
import Mathlib.Algebra.BigOperators.Group.List.Basic
import Mathlib.Data.List.Nodup

/-!
# Linking blocks that arrive in any order

`ReceivedBlockTransactions` sets `nChainTx` of an entry when the data of the entry and of all its ancestors are there,
and goes on to the entries that waited for it in `mapBlocksUnlinked`.

* `LinkInv` is the invariant of the loop over the queue, about each entry and its parent only; one round keeps it
  (`LinkInv.linkEntry`), so the loop does (`linkQueue_inv`) and ends with an empty queue.
* `LinkInv` with an empty queue says what `nChainTx` and `mapBlocksUnlinked` are (`LinkInv.linksOk`).
* A new entry and new data keep it (`LinkInv.added`, `LinkInv.receivedBlockTransactions`), as long as no path has
  `2 ^ 32` transactions: `nChainTx` is an `unsigned int`.
-/

namespace DigiWage

open Lib ChainState

namespace ChainState

variable {s : ChainState} {p : Ptr}

/-! ## One round of the loop -/

theorem linkEntry_index (s : ChainState) (p : Ptr) : (s.linkEntry p).index = s.index := by
  unfold linkEntry
  dsimp only
  split
  · rfl
  · split <;> rfl

theorem linkEntry_chainActive (s : ChainState) (p : Ptr) : (s.linkEntry p).chainActive = s.chainActive := by
  unfold linkEntry
  dsimp only
  split
  · rfl
  · split <;> rfl

theorem linkEntry_status (s : ChainState) (p : Ptr) : (s.linkEntry p).status = Function.update s.status p
    { s.status p with
      nChainTx := (s.parentChainTx p + (s.status p).nTx) % 2 ^ 32, nSequenceId := s.nBlockSequenceId } := by
  unfold linkEntry
  dsimp only
  split
  · rfl
  · split <;> rfl

theorem linkEntry_unlinked (s : ChainState) (p : Ptr) :
    (s.linkEntry p).mapBlocksUnlinked = s.mapBlocksUnlinked.filter (·.1 ≠ p) := by
  unfold linkEntry
  dsimp only
  split
  · rfl
  · split <;> rfl

theorem mem_waiting {c : Ptr} : c ∈ s.waiting p ↔ (p, c) ∈ s.mapBlocksUnlinked := by
  simp only [waiting, List.mem_map, List.mem_filter, decide_eq_true_eq]
  constructor
  · rintro ⟨⟨a, b⟩, ⟨h, rfl⟩, rfl⟩
    exact h
  · intro h
    exact ⟨(p, c), ⟨h, rfl⟩, rfl⟩

theorem length_waiting (s : ChainState) (p : Ptr) :
    (s.waiting p).length + (s.linkEntry p).mapBlocksUnlinked.length = s.mapBlocksUnlinked.length := by
  rw [linkEntry_unlinked, waiting, List.length_map]
  induction s.mapBlocksUnlinked with
  | nil => rfl
  | cons x l ih =>
    by_cases hx : x.1 = p <;> simp [hx] <;> simp at ih <;> omega

end ChainState

theorem linkQueue_inv {I : ChainState → List Ptr → Prop}
    (hstep : ∀ s p queue, I s (p :: queue) → I (s.linkEntry p) (queue ++ s.waiting p)) :
    ∀ {fuel : Nat} {queue : List Ptr} {s : ChainState}, I s queue → queue.length + s.mapBlocksUnlinked.length ≤ fuel →
      I (linkQueue fuel queue s) []
  | 0, [], s, h, _ => h
  | 0, _ :: _, s, _, hf => by simp at hf
  | _ + 1, [], s, h, _ => h
  | fuel + 1, p :: queue, s, h, hf => by
    show I (linkQueue fuel (queue ++ s.waiting p) (s.linkEntry p)) []
    refine linkQueue_inv hstep (hstep s p queue h) ?_
    have := s.length_waiting p
    rw [List.length_append]
    rw [List.length_cons] at hf
    omega

/-! ## Sums over the path -/

namespace ChainState

/-- The number of transactions on the path to the entry. -/
def chainSum (s : ChainState) (p : Ptr) : Nat := ((s.index.path p).map fun a => (s.status a).nTx).sum

/-- The data of the entry and of all its ancestors are there. -/
def AllData (s : ChainState) (p : Ptr) : Prop := ∀ a, s.index.IsAnc a p → (s.status a).haveData = true

/-- No path has `2 ^ 32` transactions. -/
def TxBound (s : ChainState) : Prop := ∀ p ∈ s.index.mapBlockIndex, s.chainSum p < 2 ^ 32

variable {s : ChainState} {p q : Ptr}

theorem chainSum_none (hp : p ∈ s.index.mapBlockIndex) (h : s.index.pprev p = none) :
    s.chainSum p = (s.status p).nTx := by
  simp [chainSum, s.index.path_none hp h]

theorem chainSum_some (hp : p ∈ s.index.mapBlockIndex) (h : s.index.pprev p = some q) :
    s.chainSum p = (s.status p).nTx + s.chainSum q := by
  simp [chainSum, s.index.path_some hp h]

theorem parentChainTx_congr {s' : ChainState} (hindex : s'.index = s.index)
    (h : ∀ q, s.index.pprev p = some q → (s'.status q).nChainTx = (s.status q).nChainTx) :
    s'.parentChainTx p = s.parentChainTx p := by
  unfold parentChainTx
  rw [hindex]
  cases hq : s.index.pprev p with
  | none => rfl
  | some q => exact h q hq

theorem allData_iff : s.AllData p ↔ (s.status p).haveData = true ∧ ∀ q, s.index.pprev p = some q → s.AllData q := by
  constructor
  · intro h
    exact ⟨h p (.refl p), fun q hq a ha => h a (.up hq ha)⟩
  · rintro ⟨hp, h⟩ a ha
    rcases anc_iff.mp ha with rfl | ⟨q, hq, ha⟩
    · exact hp
    · exact h q hq a ha

end ChainState

/-! ## The invariant -/

/-- The links of each entry, when the entries of `queue` are yet to be linked. -/
structure LinkInv (s : ChainState) (queue : List Ptr) : Prop where
  /-- Linked entries have data and a linked parent, and count the transactions. -/
  linked : ∀ p ∈ s.index.mapBlockIndex, (s.status p).nChainTx ≠ 0 → (s.status p).haveData = true ∧
    (∀ q, s.index.pprev p = some q → (s.status q).nChainTx ≠ 0) ∧
    (s.status p).nChainTx = s.parentChainTx p + (s.status p).nTx
  /-- The entries of the queue can be linked. -/
  queued : ∀ p ∈ queue, p ∈ s.index.mapBlockIndex ∧ (s.status p).haveData = true ∧ (s.status p).nChainTx = 0 ∧
    ∀ q, s.index.pprev p = some q → (s.status q).nChainTx ≠ 0
  /-- Other entries with data wait for their parent. -/
  waits : ∀ p ∈ s.index.mapBlockIndex, (s.status p).haveData = true → (s.status p).nChainTx = 0 → p ∉ queue →
    ∃ q, s.index.pprev p = some q ∧ (s.status q).nChainTx = 0 ∧ (q, p) ∈ s.mapBlocksUnlinked
  unlinked : ∀ q p, (q, p) ∈ s.mapBlocksUnlinked → p ∈ s.index.mapBlockIndex ∧ s.index.pprev p = some q ∧
    (s.status p).haveData = true ∧ (s.status p).nChainTx = 0 ∧ (s.status q).nChainTx = 0
  nodup_queue : queue.Nodup
  nodup_unlinked : s.mapBlocksUnlinked.Nodup
  nTx_pos : ∀ p ∈ s.index.mapBlockIndex, (s.status p).haveData = true → 0 < (s.status p).nTx

namespace LinkInv

open ChainState

variable {s : ChainState} {queue : List Ptr} {p : Ptr}

theorem nChainTx_eq (h : LinkInv s queue) : ∀ p ∈ s.index.mapBlockIndex, (s.status p).nChainTx ≠ 0 →
    (s.status p).nChainTx = s.chainSum p := by
  refine s.index.rooted.induct_on fun p hp ih hne => ?_
  obtain ⟨-, hpar, heq⟩ := h.linked p hp hne
  rw [heq]
  unfold parentChainTx
  cases hq : s.index.pprev p with
  | none => rw [chainSum_none hp hq]; simp
  | some q =>
    rw [chainSum_some hp hq, ← ih q hq (hpar q hq)]
    simp only
    omega

theorem link_sum (h : LinkInv s queue) (hp : p ∈ queue) : s.parentChainTx p + (s.status p).nTx = s.chainSum p := by
  obtain ⟨hmem, -, -, hpar⟩ := h.queued p hp
  unfold parentChainTx
  cases hq : s.index.pprev p with
  | none => rw [chainSum_none hmem hq]; simp
  | some q =>
    rw [chainSum_some hmem hq, ← h.nChainTx_eq q (s.index.rooted.mem hmem hq) (hpar q hq)]
    simp only
    omega

/-- What a round does: `nChainTx` of the entry is the sum of its path afterwards, and nothing else changes. -/
structure Round (s : ChainState) (p : Ptr) (s' : ChainState) : Prop where
  index : s'.index = s.index
  unlinked : s'.mapBlocksUnlinked = s.mapBlocksUnlinked.filter (·.1 ≠ p)
  sum : (s'.status p).nChainTx = s.parentChainTx p + (s.status p).nTx
  linked : (s'.status p).nChainTx ≠ 0
  other : ∀ r, r ≠ p → s'.status r = s.status r
  haveData : ∀ r, (s'.status r).haveData = (s.status r).haveData
  nTx : ∀ r, (s'.status r).nTx = (s.status r).nTx

theorem round_linkEntry (h : LinkInv s (p :: queue)) (hb : s.TxBound) : Round s p (s.linkEntry p) := by
  obtain ⟨hmem, hdata, -, -⟩ := h.queued p List.mem_cons_self
  have hst := s.linkEntry_status p
  have hsum : ((s.linkEntry p).status p).nChainTx = s.parentChainTx p + (s.status p).nTx := by
    rw [hst, Function.update_self]
    show (s.parentChainTx p + (s.status p).nTx) % 2 ^ 32 = _
    rw [h.link_sum List.mem_cons_self, Nat.mod_eq_of_lt (hb p hmem)]
  have hother : ∀ r, r ≠ p → (s.linkEntry p).status r = s.status r := by
    intro r hr
    rw [hst, Function.update_of_ne hr]
  refine ⟨s.linkEntry_index p, s.linkEntry_unlinked p, hsum, ?_, hother, fun r => ?_, fun r => ?_⟩
  · have := h.nTx_pos p hmem hdata
    omega
  · by_cases hr : r = p
    · subst hr
      rw [hst, Function.update_self]
    · rw [hother r hr]
  · by_cases hr : r = p
    · subst hr
      rw [hst, Function.update_self]
    · rw [hother r hr]

namespace Round

variable {s' : ChainState} {q r : Ptr}

theorem nChainTx_eq_zero (h : Round s p s') (hr : (s'.status r).nChainTx = 0) : r ≠ p ∧ (s.status r).nChainTx = 0 := by
  have hrp : r ≠ p := by
    rintro rfl
    exact h.linked hr
  rw [h.other r hrp] at hr
  exact ⟨hrp, hr⟩

theorem nChainTx_ne_zero (h : Round s p s') (hr : (s.status r).nChainTx ≠ 0) : (s'.status r).nChainTx ≠ 0 :=
  fun hzero => hr (h.nChainTx_eq_zero hzero).2

theorem linked_after (hround : Round s p s') (h : LinkInv s (p :: queue)) (hr : r ∈ s.index.mapBlockIndex)
    (hne : (s'.status r).nChainTx ≠ 0) : (s'.status r).haveData = true ∧
      (∀ q, s'.index.pprev r = some q → (s'.status q).nChainTx ≠ 0) ∧
      (s'.status r).nChainTx = s'.parentChainTx r + (s'.status r).nTx := by
  obtain ⟨hmem, hdata, hzero, hpar⟩ := h.queued p List.mem_cons_self
  rw [hround.index, hround.haveData, hround.nTx]
  by_cases hrp : r = p
  · subst hrp
    refine ⟨hdata, fun q hq => hround.nChainTx_ne_zero (hpar q hq), ?_⟩
    rw [hround.sum, parentChainTx_congr hround.index fun q hq => ?_]
    have hqp : q ≠ r := by
      rintro rfl
      have := s.index.rooted.succ hmem hq
      omega
    rw [hround.other q hqp]
  · rw [hround.other r hrp] at hne ⊢
    obtain ⟨hd, hpar', heq⟩ := h.linked r hr hne
    refine ⟨hd, fun q hq => hround.nChainTx_ne_zero (hpar' q hq), ?_⟩
    rw [heq, parentChainTx_congr hround.index fun q hq => ?_]
    have hqp : q ≠ p := by
      rintro rfl
      exact hpar' q hq hzero
    rw [hround.other q hqp]

theorem queued_after (hround : Round s p s') (h : LinkInv s (p :: queue)) (hr : r ∈ queue ++ s.waiting p) :
    r ∈ s.index.mapBlockIndex ∧ (s'.status r).haveData = true ∧ (s'.status r).nChainTx = 0 ∧
      ∀ q, s.index.pprev r = some q → (s'.status q).nChainTx ≠ 0 := by
  rw [hround.haveData]
  rcases List.mem_append.mp hr with hqueue | hwaiting
  · have hrp : r ≠ p := by
      rintro rfl
      exact (List.nodup_cons.mp h.nodup_queue).1 hqueue
    obtain ⟨hmem, hd, hz, hpar⟩ := h.queued r (List.mem_cons_of_mem _ hqueue)
    rw [hround.other r hrp]
    exact ⟨hmem, hd, hz, fun q hq => hround.nChainTx_ne_zero (hpar q hq)⟩
  · obtain ⟨hmem, hp, hd, hz, -⟩ := h.unlinked p r (mem_waiting.mp hwaiting)
    have hrp : r ≠ p := by
      rintro rfl
      have := s.index.rooted.succ hmem hp
      omega
    rw [hround.other r hrp]
    refine ⟨hmem, hd, hz, fun q hq => ?_⟩
    rw [hp] at hq
    cases hq
    exact hround.linked

theorem waits_after (hround : Round s p s') (h : LinkInv s (p :: queue)) (hr : r ∈ s.index.mapBlockIndex)
    (hd : (s'.status r).haveData = true) (hz : (s'.status r).nChainTx = 0) (hq : r ∉ queue ++ s.waiting p) :
    ∃ q, s.index.pprev r = some q ∧ (s'.status q).nChainTx = 0 ∧ (q, r) ∈ s'.mapBlocksUnlinked := by
  rw [hround.haveData] at hd
  obtain ⟨hrp, hz⟩ := hround.nChainTx_eq_zero hz
  rw [List.mem_append, not_or] at hq
  have hnot : r ∉ p :: queue := by
    rw [List.mem_cons, not_or]
    exact ⟨hrp, hq.1⟩
  obtain ⟨q, hpq, hqz, hmem⟩ := h.waits r hr hd hz hnot
  have hqp : q ≠ p := by
    rintro rfl
    exact hq.2 (mem_waiting.mpr hmem)
  refine ⟨q, hpq, by rw [hround.other q hqp]; exact hqz, ?_⟩
  rw [hround.unlinked, List.mem_filter]
  exact ⟨hmem, by simpa using hqp⟩

theorem unlinked_after (hround : Round s p s') (h : LinkInv s (p :: queue)) (hqr : (q, r) ∈ s'.mapBlocksUnlinked) :
    r ∈ s.index.mapBlockIndex ∧ s.index.pprev r = some q ∧ (s'.status r).haveData = true ∧
      (s'.status r).nChainTx = 0 ∧ (s'.status q).nChainTx = 0 := by
  rw [hround.unlinked, List.mem_filter] at hqr
  obtain ⟨hqr, hqp⟩ := hqr
  obtain ⟨hmem, hpq, hd, hz, hqz⟩ := h.unlinked q r hqr
  have hrp : r ≠ p := by
    rintro rfl
    exact (h.queued r List.mem_cons_self).2.2.2 q hpq hqz
  rw [hround.haveData, hround.other r hrp, hround.other q (by simpa using hqp)]
  exact ⟨hmem, hpq, hd, hz, hqz⟩

end Round

theorem nodup_queue_waiting (h : LinkInv s (p :: queue)) : (queue ++ s.waiting p).Nodup := by
  refine List.Nodup.append (List.nodup_cons.mp h.nodup_queue).2 ?_ ?_
  · refine (h.nodup_unlinked.filter _).map_on ?_
    rintro ⟨a, b⟩ hab ⟨c, d⟩ hcd hbd
    simp only [List.mem_filter, decide_eq_true_eq] at hab hcd hbd
    simp [hab.2, hcd.2, hbd]
  · intro r hr hr'
    obtain ⟨-, hp, -, -, hz⟩ := h.unlinked p r (mem_waiting.mp hr')
    exact (h.queued r (List.mem_cons_of_mem _ hr)).2.2.2 p hp hz

theorem linkEntry (h : LinkInv s (p :: queue)) (hb : s.TxBound) :
    LinkInv (s.linkEntry p) (queue ++ s.waiting p) := by
  have hround := h.round_linkEntry hb
  have hidx := hround.index
  constructor
  · intro r hr hne
    rw [hidx] at hr
    exact hround.linked_after h hr hne
  · intro r hr
    rw [hidx]
    exact hround.queued_after h hr
  · intro r hr hd hz hq
    rw [hidx] at hr ⊢
    exact hround.waits_after h hr hd hz hq
  · intro q r hqr
    rw [hidx]
    exact hround.unlinked_after h hqr
  · exact h.nodup_queue_waiting
  · rw [hround.unlinked]
    exact h.nodup_unlinked.filter _
  · intro r hr hd
    rw [hidx] at hr
    rw [hround.haveData] at hd
    rw [hround.nTx]
    exact h.nTx_pos r hr hd

theorem txBound_linkEntry (hb : s.TxBound) (p : Ptr) : (s.linkEntry p).TxBound := by
  unfold TxBound chainSum
  rw [linkEntry_index, linkEntry_status]
  intro r hr
  have htx : (fun a => (Function.update s.status p { s.status p with
      nChainTx := (s.parentChainTx p + (s.status p).nTx) % 2 ^ 32, nSequenceId := s.nBlockSequenceId } a).nTx) =
      fun a => (s.status a).nTx := by
    funext a
    by_cases ha : a = p
    · subst ha; rw [Function.update_self]
    · rw [Function.update_of_ne ha]
  rw [htx]
  exact hb r hr

theorem linkQueue (h : LinkInv s queue) (hb : s.TxBound) {J : ChainState → Prop}
    (hJ : ∀ s p queue, LinkInv s (p :: queue) → s.TxBound → J s → J (s.linkEntry p)) (hs : J s) {fuel : Nat}
    (hf : queue.length + s.mapBlocksUnlinked.length ≤ fuel) :
    LinkInv (linkQueue fuel queue s) [] ∧ J (DigiWage.linkQueue fuel queue s) := by
  obtain ⟨h₁, -, h₂⟩ := linkQueue_inv (I := fun s queue => LinkInv s queue ∧ s.TxBound ∧ J s) (fun s p queue h =>
    ⟨h.1.linkEntry h.2.1, txBound_linkEntry h.2.1 p, hJ s p queue h.1 h.2.1 h.2.2⟩) ⟨h, hb, hs⟩ hf
  exact ⟨h₁, h₂⟩

theorem nChainTx_local (h : LinkInv s []) (hp : p ∈ s.index.mapBlockIndex) : ((s.status p).nChainTx ≠ 0 ↔
    (s.status p).haveData = true ∧ ∀ q, s.index.pprev p = some q → (s.status q).nChainTx ≠ 0) ∧
    ((s.status p).nChainTx ≠ 0 → (s.status p).nChainTx = s.parentChainTx p + (s.status p).nTx) := by
  refine ⟨⟨fun hne => ?_, ?_⟩, fun hne => (h.linked p hp hne).2.2⟩
  · obtain ⟨hd, hq, -⟩ := h.linked p hp hne
    exact ⟨hd, hq⟩
  · rintro ⟨hd, hpar⟩ hz
    obtain ⟨q, hq, hqz, -⟩ := h.waits p hp hd hz (by simp)
    exact hpar q hq hqz

theorem linked_iff (h : LinkInv s []) : ∀ p ∈ s.index.mapBlockIndex, ((s.status p).nChainTx ≠ 0 ↔ s.AllData p) := by
  refine s.index.rooted.induct_on fun p hp ih => ?_
  rw [(h.nChainTx_local hp).1, allData_iff]
  constructor
  · rintro ⟨hd, hpar⟩
    exact ⟨hd, fun q hq => (ih q hq).mp (hpar q hq)⟩
  · rintro ⟨hd, hpar⟩
    exact ⟨hd, fun q hq => (ih q hq).mpr (hpar q hq)⟩

end LinkInv

/-- What `nChainTx` and `mapBlocksUnlinked` say about the data that arrived. -/
structure LinksOk (s : ChainState) : Prop where
  linked : ∀ p ∈ s.index.mapBlockIndex, (0 < (s.status p).nChainTx ↔ s.AllData p)
  count : ∀ p ∈ s.index.mapBlockIndex, s.AllData p → (s.status p).nChainTx = s.chainSum p
  unlinked : ∀ p ∈ s.index.mapBlockIndex, ∀ q, (q, p) ∈ s.mapBlocksUnlinked ↔
    s.index.pprev p = some q ∧ (s.status p).haveData = true ∧ ∃ a, s.index.IsAnc a p ∧ (s.status a).haveData = false
  once : s.mapBlocksUnlinked.Nodup

namespace LinkInv

open ChainState

variable {s : ChainState} {p : Ptr}

theorem linksOk (h : LinkInv s []) : LinksOk s := by
  refine ⟨fun p hp => by rw [Nat.pos_iff_ne_zero]; exact h.linked_iff p hp, fun p hp ha => ?_, fun p hp q => ?_,
    h.nodup_unlinked⟩
  · exact h.nChainTx_eq p hp ((h.linked_iff p hp).mpr ha)
  · have hnot : (∃ a, s.index.IsAnc a p ∧ (s.status a).haveData = false) ↔ (s.status p).nChainTx = 0 := by
      rw [← not_iff_not, ← ne_eq, h.linked_iff p hp]
      unfold AllData
      simp only [not_exists, not_and, Bool.not_eq_false]
    rw [hnot]
    constructor
    · intro hmem
      obtain ⟨-, hq, hd, hz, -⟩ := h.unlinked q p hmem
      exact ⟨hq, hd, hz⟩
    · rintro ⟨hq, hd, hz⟩
      obtain ⟨q', hq', -, hmem⟩ := h.waits p hp hd hz (by simp)
      rw [hq] at hq'
      cases hq'
      exact hmem

/-- What new data change: `nTx` of the entry, and that its data are there. -/
structure NewData (s : ChainState) (p : Ptr) (nTx : Nat) (s' : ChainState) : Prop where
  index : s'.index = s.index
  unlinked : s'.mapBlocksUnlinked = s.mapBlocksUnlinked
  nTx : (s'.status p).nTx = nTx
  haveData : (s'.status p).haveData = true
  nChainTx : ∀ r, (s'.status r).nChainTx = (s.status r).nChainTx
  other : ∀ r, r ≠ p → s'.status r = s.status r

theorem nChainTx_of_not_haveData (h : LinkInv s queue) (hp : p ∈ s.index.mapBlockIndex)
    (hnew : (s.status p).haveData = false) : (s.status p).nChainTx = 0 := by
  by_contra hne
  rw [(h.linked p hp hne).1] at hnew
  cases hnew

theorem newData_received (hz : (s.status p).nChainTx = 0) (nVtx : Nat) :
    NewData s p (nVtx % 2 ^ 32) (s.setStatus p fun st => st.received nVtx) := by
  have hself : (s.setStatus p fun st => st.received nVtx).status p = (s.status p).received nVtx := by simp [setStatus]
  obtain ⟨hnTx, hchain, hdata, -⟩ := (s.status p).received_spec nVtx
  have hother : ∀ r, r ≠ p → (s.setStatus p fun st => st.received nVtx).status r = s.status r := by
    intro r hr
    simp [setStatus, hr]
  refine ⟨rfl, rfl, by rw [hself, hnTx], by rw [hself, hdata], fun r => ?_, hother⟩
  by_cases hr : r = p
  · subst hr
    rw [hself, hchain, hz]
  · rw [hother r hr]

namespace NewData

variable {s' : ChainState} {n : Nat} {q r : Ptr}

theorem txBound (hdata : NewData s p n s') (hb : (s.setStatus p fun st => { st with nTx := n }).TxBound) : s'.TxBound := by
  intro r hr
  rw [hdata.index] at hr
  have hbound := hb r hr
  unfold chainSum at hbound ⊢
  have htx : (fun a => (s'.status a).nTx) = fun a => ((s.setStatus p fun st => { st with nTx := n }).status a).nTx := by
    funext a
    by_cases ha : a = p
    · subst ha
      rw [hdata.nTx]
      simp [setStatus]
    · rw [hdata.other a ha]
      simp [setStatus, ha]
  rw [htx, hdata.index]
  exact hbound

theorem linked_after (hdata : NewData s p n s') (h : LinkInv s []) (hz : (s.status p).nChainTx = 0)
    (hr : r ∈ s.index.mapBlockIndex) (hne : (s'.status r).nChainTx ≠ 0) : (s'.status r).haveData = true ∧
      (∀ q, s'.index.pprev r = some q → (s'.status q).nChainTx ≠ 0) ∧
      (s'.status r).nChainTx = s'.parentChainTx r + (s'.status r).nTx := by
  rw [hdata.nChainTx] at hne
  have hrp : r ≠ p := by
    rintro rfl
    exact hne hz
  obtain ⟨hd, hq, heq⟩ := h.linked r hr hne
  rw [parentChainTx_congr hdata.index fun q _ => hdata.nChainTx q, hdata.nChainTx, hdata.other r hrp, hdata.index]
  exact ⟨hd, fun q hpq => by rw [hdata.nChainTx]; exact hq q hpq, heq⟩

theorem unlinked_after (hdata : NewData s p n s') (h : LinkInv s []) (hnew : (s.status p).haveData = false)
    (hqr : (q, r) ∈ s.mapBlocksUnlinked) : r ≠ p ∧ r ∈ s.index.mapBlockIndex ∧ s.index.pprev r = some q ∧
      (s'.status r).haveData = true ∧ (s'.status r).nChainTx = 0 ∧ (s'.status q).nChainTx = 0 := by
  obtain ⟨hmem, hpq, hd, hz, hqz⟩ := h.unlinked q r hqr
  have hrp : r ≠ p := by
    rintro rfl
    rw [hnew] at hd
    cases hd
  rw [hdata.nChainTx, hdata.nChainTx, hdata.other r hrp]
  exact ⟨hrp, hmem, hpq, hd, hz, hqz⟩

theorem waits_after (hdata : NewData s p n s') (h : LinkInv s []) (hr : r ∈ s.index.mapBlockIndex)
    (hd : (s'.status r).haveData = true) (hz : (s'.status r).nChainTx = 0) (hrp : r ≠ p) :
    ∃ q, s.index.pprev r = some q ∧ (s'.status q).nChainTx = 0 ∧ (q, r) ∈ s.mapBlocksUnlinked := by
  rw [hdata.other r hrp] at hd
  rw [hdata.nChainTx] at hz
  obtain ⟨q, hq, hqz, hmem⟩ := h.waits r hr hd hz List.not_mem_nil
  exact ⟨q, hq, by rw [hdata.nChainTx]; exact hqz, hmem⟩

theorem nTx_pos (hdata : NewData s p n s') (h : LinkInv s []) (hpos : 0 < n) (hr : r ∈ s.index.mapBlockIndex)
    (hd : (s'.status r).haveData = true) : 0 < (s'.status r).nTx := by
  by_cases hrp : r = p
  · subst hrp
    rw [hdata.nTx]
    exact hpos
  · rw [hdata.other r hrp] at hd ⊢
    exact h.nTx_pos r hr hd

theorem linkInv_queue (hdata : NewData s p n s') (h : LinkInv s []) (hp : p ∈ s.index.mapBlockIndex)
    (hnew : (s.status p).haveData = false) (hpos : 0 < n)
    (hpar : ∀ q, s.index.pprev p = some q → (s'.status q).nChainTx ≠ 0) : LinkInv s' [p] := by
  have hz := h.nChainTx_of_not_haveData hp hnew
  have hidx := hdata.index
  constructor
  · intro r hr hne
    rw [hidx] at hr
    exact hdata.linked_after h hz hr hne
  · intro r hr
    rw [List.mem_singleton] at hr
    subst hr
    rw [hidx, hdata.nChainTx]
    exact ⟨hp, hdata.haveData, hz, hpar⟩
  · intro r hr hd hrz hrp
    rw [hidx] at hr ⊢
    rw [hdata.unlinked]
    exact hdata.waits_after h hr hd hrz (by simpa using hrp)
  · intro q r hqr
    rw [hdata.unlinked] at hqr
    rw [hidx]
    exact (hdata.unlinked_after h hnew hqr).2
  · exact List.nodup_singleton p
  · rw [hdata.unlinked]
    exact h.nodup_unlinked
  · intro r hr hd
    rw [hidx] at hr
    exact hdata.nTx_pos h hpos hr hd

theorem linkInv_wait (hdata : NewData s p n s') (h : LinkInv s []) (hp : p ∈ s.index.mapBlockIndex)
    (hnew : (s.status p).haveData = false) (hpos : 0 < n) (hq : s.index.pprev p = some q)
    (hqz : (s'.status q).nChainTx = 0) : LinkInv { s' with mapBlocksUnlinked := s'.mapBlocksUnlinked ++ [(q, p)] } [] := by
  have hz := h.nChainTx_of_not_haveData hp hnew
  have hidx := hdata.index
  constructor
  · intro r hr hne
    rw [hidx] at hr
    exact hdata.linked_after h hz hr hne
  · intro r hr
    exact absurd hr List.not_mem_nil
  · intro r hr hd hrz _
    show ∃ q', s'.index.pprev r = some q' ∧ (s'.status q').nChainTx = 0 ∧ (q', r) ∈ s'.mapBlocksUnlinked ++ [(q, p)]
    rw [hidx] at hr ⊢
    rw [hdata.unlinked]
    by_cases hrp : r = p
    · subst hrp
      exact ⟨q, hq, hqz, by simp⟩
    · obtain ⟨q', hq', hz', hmem⟩ := hdata.waits_after h hr hd hrz hrp
      exact ⟨q', hq', hz', List.mem_append_left _ hmem⟩
  · intro q' r hqr
    show r ∈ s'.index.mapBlockIndex ∧ s'.index.pprev r = some q' ∧ _
    rw [hidx]
    rcases List.mem_append.mp hqr with hqr | hqr
    · rw [hdata.unlinked] at hqr
      exact (hdata.unlinked_after h hnew hqr).2
    · simp only [List.mem_singleton, Prod.mk.injEq] at hqr
      obtain ⟨rfl, rfl⟩ := hqr
      exact ⟨hp, hq, hdata.haveData, by rw [hdata.nChainTx]; exact hz, hqz⟩
  · exact List.nodup_nil
  · show (s'.mapBlocksUnlinked ++ [(q, p)]).Nodup
    rw [hdata.unlinked]
    refine List.Nodup.append h.nodup_unlinked (List.nodup_singleton _) ?_
    intro x hx hx'
    rw [List.mem_singleton] at hx'
    subst hx'
    exact (hdata.unlinked_after h hnew hx).1 rfl
  · intro r hr hd
    rw [hidx] at hr
    exact hdata.nTx_pos h hpos hr hd

end NewData

theorem receivedBlockTransactions (h : LinkInv s []) (hp : p ∈ s.index.mapBlockIndex)
    (hnew : (s.status p).haveData = false) {nVtx : Nat} (hpos : 0 < nVtx % 2 ^ 32)
    (hpar : ∀ q, s.index.pprev p = some q → (s.status q).isValid BLOCK_VALID_TREE = true)
    (hb : (s.setStatus p fun st => { st with nTx := nVtx % 2 ^ 32 }).TxBound) {J : ChainState → Prop}
    (hJ : ∀ s p queue, LinkInv s (p :: queue) → s.TxBound → J s → J (s.linkEntry p))
    (hs : ∀ l, J { s.setStatus p (fun st => st.received nVtx) with mapBlocksUnlinked := l }) :
    LinkInv (s.receivedBlockTransactions p nVtx) [] ∧ J (s.receivedBlockTransactions p nVtx) := by
  have hdata := newData_received (h.nChainTx_of_not_haveData hp hnew) nVtx
  unfold ChainState.receivedBlockTransactions
  set s₁ := s.setStatus p (fun st => st.received nVtx) with hs₁
  -- the parent is linked: the loop starts at `p`
  have hlink : (∀ q, s.index.pprev p = some q → (s₁.status q).nChainTx ≠ 0) →
      LinkInv (DigiWage.linkQueue (1 + s₁.mapBlocksUnlinked.length) [p] s₁) [] ∧
        J (DigiWage.linkQueue (1 + s₁.mapBlocksUnlinked.length) [p] s₁) := fun hq =>
    LinkInv.linkQueue (hdata.linkInv_queue h hp hnew hpos hq) (hdata.txBound hb) hJ (hs _) (by simp)
  dsimp only
  rw [hdata.index]
  cases hq : s.index.pprev p with
  | none => exact hlink fun q hq' => by rw [hq] at hq'; cases hq'
  | some q =>
    simp only
    split
    · rename_i hne
      exact hlink fun q' hq' => by rw [hq] at hq'; cases hq'; exact hne
    · rename_i hqz
      rw [ne_eq, Classical.not_not] at hqz
      have hqp : q ≠ p := by
        rintro rfl
        have := s.index.rooted.succ hp hq
        omega
      have hvalid : (s₁.status q).isValid BLOCK_VALID_TREE = true := by
        rw [hdata.other q hqp]
        exact hpar q hq
      rw [if_pos hvalid]
      exact ⟨hdata.linkInv_wait h hp hnew hpos hq hqz, hs _⟩

theorem added (h : LinkInv s []) {new : Ptr} {block : CBlockHeader} {s' : ChainState} (ha : Added s new block s') :
    LinkInv s' [] := by
  have hold := ha.status_old
  have hparent : ∀ r ∈ s.index.mapBlockIndex, s'.parentChainTx r = s.parentChainTx r := by
    intro r hr
    unfold parentChainTx
    rw [ha.pprev hr]
    cases hq : s.index.pprev r with
    | none => rfl
    | some q => simp only; rw [hold q (s.index.rooted.mem hr hq)]
  refine ⟨?_, by simp, ?_, ?_, List.nodup_nil, ?_, ?_⟩
  · intro r hr hne
    rw [ha.mapBlockIndex] at hr
    rcases List.mem_cons.mp hr with rfl | hr
    · rw [ha.status_new] at hne
      exact absurd rfl hne
    · rw [hold r hr] at hne
      obtain ⟨hd, hq, heq⟩ := h.linked r hr hne
      rw [hold r hr, hparent r hr, ha.pprev hr]
      refine ⟨hd, fun q hpq => ?_, heq⟩
      rw [hold q (s.index.rooted.mem hr hpq)]
      exact hq q hpq
  · intro r hr hd hz _
    rw [ha.mapBlockIndex] at hr
    rcases List.mem_cons.mp hr with rfl | hr
    · rw [ha.status_new] at hd
      cases hd
    · rw [hold r hr] at hd hz
      obtain ⟨q, hpq, hqz, hmem⟩ := h.waits r hr hd hz (by simp)
      rw [ha.pprev hr, ha.mapBlocksUnlinked]
      exact ⟨q, hpq, by rw [hold q (s.index.rooted.mem hr hpq)]; exact hqz, hmem⟩
  · intro q r hqr
    rw [ha.mapBlocksUnlinked] at hqr
    obtain ⟨h₁, h₂, h₃, h₄, h₅⟩ := h.unlinked q r hqr
    rw [ha.mapBlockIndex, ha.pprev h₁, hold r h₁, hold q (s.index.rooted.mem h₁ h₂)]
    exact ⟨List.mem_cons_of_mem _ h₁, h₂, h₃, h₄, h₅⟩
  · rw [ha.mapBlocksUnlinked]
    exact h.nodup_unlinked
  · intro r hr hd
    rw [ha.mapBlockIndex] at hr
    rcases List.mem_cons.mp hr with rfl | hr
    · rw [ha.status_new] at hd
      cases hd
    · rw [hold r hr] at hd ⊢
      exact h.nTx_pos r hr hd

end LinkInv

/-! ## What new data leave alone -/

theorem linkQueue_frame : ∀ (fuel : Nat) (queue : List Ptr) (s : ChainState),
    (linkQueue fuel queue s).index = s.index ∧ (linkQueue fuel queue s).chainActive = s.chainActive ∧
    ∀ r, ((linkQueue fuel queue s).status r).core = (s.status r).core
  | 0, _, s => ⟨rfl, rfl, fun _ => rfl⟩
  | _ + 1, [], s => ⟨rfl, rfl, fun _ => rfl⟩
  | fuel + 1, p :: queue, s => by
    obtain ⟨h₁, h₂, h₃⟩ := linkQueue_frame fuel (queue ++ s.waiting p) (s.linkEntry p)
    rw [linkEntry_index] at h₁
    rw [linkEntry_chainActive] at h₂
    refine ⟨h₁, h₂, fun r => (h₃ r).trans ?_⟩
    rw [linkEntry_status]
    by_cases hr : r = p
    · subst hr; rw [Function.update_self]; rfl
    · rw [Function.update_of_ne hr]

theorem received_frame (s : ChainState) (p : Ptr) (nVtx : Nat) :
    (s.receivedBlockTransactions p nVtx).index = s.index ∧
    (s.receivedBlockTransactions p nVtx).chainActive = s.chainActive ∧
    ((s.receivedBlockTransactions p nVtx).status p).core = ((s.status p).received nVtx).core ∧
    ∀ r, r ≠ p → ((s.receivedBlockTransactions p nVtx).status r).core = (s.status r).core := by
  have hstart : ((s.setStatus p fun st => st.received nVtx).status p).core = ((s.status p).received nVtx).core ∧
      ∀ r, r ≠ p → ((s.setStatus p fun st => st.received nVtx).status r).core = (s.status r).core := by
    refine ⟨by simp [setStatus], fun r hr => ?_⟩
    simp [setStatus, hr]
  have hlink : ∀ fuel queue, ((linkQueue fuel queue (s.setStatus p fun st => st.received nVtx)).status p).core =
      ((s.status p).received nVtx).core ∧ ∀ r, r ≠ p →
      ((linkQueue fuel queue (s.setStatus p fun st => st.received nVtx)).status r).core = (s.status r).core := by
    intro fuel queue
    have h := (linkQueue_frame fuel queue (s.setStatus p fun st => st.received nVtx)).2.2
    exact ⟨(h p).trans hstart.1, fun r hr => (h r).trans (hstart.2 r hr)⟩
  unfold ChainState.receivedBlockTransactions
  dsimp only
  split
  · exact ⟨(linkQueue_frame _ _ _).1, (linkQueue_frame _ _ _).2.1, hlink _ _⟩
  · split
    · exact ⟨(linkQueue_frame _ _ _).1, (linkQueue_frame _ _ _).2.1, hlink _ _⟩
    · split
      · exact ⟨rfl, rfl, hstart⟩
      · exact ⟨rfl, rfl, hstart⟩

end DigiWage
