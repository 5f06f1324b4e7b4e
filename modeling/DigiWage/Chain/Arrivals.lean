import DigiWage.Chain.Link
import Mathlib.Algebra.Order.BigOperators.Group.List
import Mathlib.Algebra.Order.Group.Nat

/-!
# Blocks that arrive in any order

Runs of `AcceptBlockHeader` and `AcceptBlock` on an empty block index, for headers and blocks in any order.

* `SourceInv` ties the entries to the blocks they were made of.
-/

namespace DigiWage

open Lib ChainState

/-! ## Runs -/

/-- The blocks that can arrive, by their hashes. -/
structure BlockSource where
  block : Uint256 → CBlock
  hash_block : ∀ h, (block h).hash = h
  hashGenesisBlock : Uint256

/-- The state of a node without blocks. -/
def ChainState.init : ChainState := ⟨.empty, fun _ => .init, ⟨[]⟩, [], [], 1, none, none, 0⟩

/-- `AcceptBlockHeader`, after the checks on the header alone: the entry is made at the free address `new`, unless the
block is known or its parent is unknown or failed. -/
def acceptHeader (src : BlockSource) (s : ChainState) (new : Ptr) (hash : Uint256) : ChainState :=
  if new ∈ s.index.mapBlockIndex ∨ (s.index.find hash).isSome then s
  else if hash = src.hashGenesisBlock then (s.addToBlockIndex new (src.block hash).toCBlockHeader).2
  else
    match s.index.find (src.block hash).hashPrevBlock with
    | none => s
    | some pindexPrev =>
      if (s.status pindexPrev).failed then s else (s.addToBlockIndex new (src.block hash).toCBlockHeader).2

/-- The end of `AcceptBlock`, after the checks on the block: its transactions are received unless they are there
already, or the entry or its parent is failed. A block without transactions is rejected by `CheckBlock`. -/
def acceptData (src : BlockSource) (s : ChainState) (hash : Uint256) : ChainState :=
  match s.index.find hash with
  | none => s
  | some pindex =>
    let prevFailed := match s.index.pprev pindex with
      | none => false
      | some pindexPrev => (s.status pindexPrev).failed
    if prevFailed || (s.status pindex).failed || (s.status pindex).haveData || (src.block hash).vtx.isEmpty then s
    else s.receivedBlockTransactions pindex (src.block hash).vtx.length

/-- A header or a full block arrives. -/
inductive Arrival where
  | header (new : Ptr) (hash : Uint256)
  | data (hash : Uint256)

def Arrival.step (src : BlockSource) (s : ChainState) : Arrival → ChainState
  | header new hash => acceptHeader src s new hash
  | data hash => acceptData src s hash

/-- A run: the blocks arrive one after the other. -/
def runArrivals (src : BlockSource) (as : List Arrival) : ChainState := as.foldl (Arrival.step src) ChainState.init

theorem acceptHeader_cases (src : BlockSource) (s : ChainState) (new : Ptr) (hash : Uint256) :
    acceptHeader src s new hash = s ∨ ((hash = src.hashGenesisBlock ∨ ∃ q,
      s.index.find (src.block hash).hashPrevBlock = some q ∧ (s.status q).failed = false) ∧
      s.index.find hash = none ∧
      Added s new (src.block hash).toCBlockHeader (acceptHeader src s new hash)) := by
  unfold acceptHeader
  split
  · exact Or.inl rfl
  · rename_i hc
    rw [not_or, Bool.not_eq_true, Option.isSome_eq_false_iff, Option.isNone_iff_eq_none] at hc
    have hhash : s.index.find (src.block hash).toCBlockHeader.hash = none := by
      rw [show (src.block hash).toCBlockHeader.hash = hash from src.hash_block hash]
      exact hc.2
    have hadd := addToBlockIndex_added hc.1 hhash
    split
    · rename_i hg
      exact Or.inr ⟨Or.inl hg, hc.2, hadd⟩
    · split
      · exact Or.inl rfl
      · rename_i q hq
        split
        · exact Or.inl rfl
        · rename_i hf
          exact Or.inr ⟨Or.inr ⟨q, hq, by simpa using hf⟩, hc.2, hadd⟩

theorem acceptData_cases (src : BlockSource) (s : ChainState) (hash : Uint256) : acceptData src s hash = s ∨ ∃ p,
    p ∈ s.index.mapBlockIndex ∧ (s.index.entry p).hash = hash ∧ (s.status p).failed = false ∧
    (s.status p).haveData = false ∧ 0 < (src.block hash).vtx.length ∧
    (∀ q, s.index.pprev p = some q → (s.status q).failed = false) ∧
    acceptData src s hash = s.receivedBlockTransactions p (src.block hash).vtx.length := by
  unfold acceptData
  cases hf : s.index.find hash with
  | none => exact Or.inl rfl
  | some p =>
    obtain ⟨hp, hh⟩ := BlockIndex.find_some hf
    simp only
    by_cases hc : ((match s.index.pprev p with | none => false | some pindexPrev => (s.status pindexPrev).failed) ||
        (s.status p).failed || (s.status p).haveData || (src.block hash).vtx.isEmpty) = true
    · rw [if_pos hc]
      exact Or.inl rfl
    · rw [if_neg hc]
      simp only [Bool.or_eq_true, not_or, Bool.not_eq_true, List.isEmpty_eq_false_iff] at hc
      obtain ⟨⟨⟨h₁, h₂⟩, h₃⟩, h₄⟩ := hc
      refine Or.inr ⟨p, hp, hh, h₂, h₃, List.length_pos_iff.mpr h₄, fun q hq => ?_, rfl⟩
      rw [hq] at h₁
      exact h₁

/-- The index holds blocks of the source, with their parents. -/
structure IndexOf (src : BlockSource) (t : BlockIndex) : Prop where
  parent : ∀ p ∈ t.mapBlockIndex, ((t.entry p).hash = src.hashGenesisBlock ∧ t.pprev p = none) ∨
    ((t.entry p).hash ≠ src.hashGenesisBlock ∧ ∃ q, t.pprev p = some q ∧
      (t.entry q).hash = (src.block (t.entry p).hash).hashPrevBlock)
  genesis : t.mapBlockIndex ≠ [] → ∃ p ∈ t.mapBlockIndex, (t.entry p).hash = src.hashGenesisBlock
  nTime : ∀ p ∈ t.mapBlockIndex, (t.entry p).nTime = (src.block (t.entry p).hash).nTime
  nBits : ∀ p ∈ t.mapBlockIndex, (t.entry p).nBits = (src.block (t.entry p).hash).nBits

/-- What the blocks of the source say about the entries. -/
structure SourceInv (src : BlockSource) (s : ChainState) : Prop extends IndexOf src s.index where
  nTx : ∀ p ∈ s.index.mapBlockIndex, (s.status p).nTx =
    if (s.status p).haveData then (src.block (s.index.entry p).hash).vtx.length % 2 ^ 32 else 0
  tree : ∀ p ∈ s.index.mapBlockIndex, BLOCK_VALID_TREE ≤ (s.status p).nValid

/-- The number of transactions of the blocks on the path, whether they arrived or not. -/
def treeSum (src : BlockSource) (t : BlockIndex) (p : Ptr) : Nat :=
  ((t.path p).map fun a => (src.block (t.entry a).hash).vtx.length).sum

/-- No path of the tree has `2 ^ 32` transactions. -/
def TreeBound (src : BlockSource) (t : BlockIndex) : Prop := ∀ p ∈ t.mapBlockIndex, treeSum src t p < 2 ^ 32

theorem treeSum_ge {src : BlockSource} {t : BlockIndex} {p : Ptr} (hp : p ∈ t.mapBlockIndex) :
    (src.block (t.entry p).hash).vtx.length ≤ treeSum src t p := by
  refine List.single_le_sum (fun _ _ => Nat.zero_le _) _ (List.mem_map.mpr ⟨p, ?_, rfl⟩)
  exact (BlockIndex.mem_path hp).mpr (.refl p)

theorem chainSum_le {src : BlockSource} {s : ChainState} (h : ∀ p ∈ s.index.mapBlockIndex,
    (s.status p).nTx ≤ (src.block (s.index.entry p).hash).vtx.length) (hb : TreeBound src s.index) : s.TxBound := by
  intro p hp
  refine Nat.lt_of_le_of_lt (List.sum_le_sum fun a ha => h a ?_) (hb p hp)
  exact s.index.rooted.anc_mem hp ((BlockIndex.mem_path hp).mp ha)

theorem SourceInv.nTx_le {src : BlockSource} {s : ChainState} (h : SourceInv src s) :
    ∀ p ∈ s.index.mapBlockIndex, (s.status p).nTx ≤ (src.block (s.index.entry p).hash).vtx.length := by
  intro p hp
  rw [h.nTx p hp]
  split
  · exact Nat.mod_le _ _
  · exact Nat.zero_le _

theorem TreeBound.of_added {src : BlockSource} {s s' : ChainState} {new : Ptr} {block : CBlockHeader}
    (ha : Added s new block s') (hb : TreeBound src s'.index) : TreeBound src s.index := by
  intro p hp
  have hp' : p ∈ s'.index.mapBlockIndex := by rw [ha.mapBlockIndex]; exact List.mem_cons_of_mem _ hp
  have := hb p hp'
  unfold treeSum at this ⊢
  rw [ha.index, BlockIndex.path_add hp] at this
  have hmap : (s.index.path p).map (fun a => (src.block ((s.index.add new block).entry a).hash).vtx.length) =
      (s.index.path p).map fun a => (src.block (s.index.entry a).hash).vtx.length := by
    refine List.map_congr_left fun a haP => ?_
    rw [BlockIndex.add_entry (s.index.rooted.anc_mem hp ((BlockIndex.mem_path hp).mp haP))]
  rw [hmap] at this
  exact this

theorem IndexOf.empty (src : BlockSource) : IndexOf src BlockIndex.empty :=
  ⟨fun p hp => by simp [BlockIndex.empty] at hp, fun h => absurd rfl h, fun p hp => by simp [BlockIndex.empty] at hp,
    fun p hp => by simp [BlockIndex.empty] at hp⟩

theorem IndexOf.added {src : BlockSource} {s s' : ChainState} (h : IndexOf src s.index) {new : Ptr} {hash : Uint256}
    (hpar : hash = src.hashGenesisBlock ∨ ∃ q, s.index.find (src.block hash).hashPrevBlock = some q)
    (hnone : s.index.find hash = none) (ha : Added s new (src.block hash).toCBlockHeader s') : IndexOf src s'.index := by
  have hentry : ∀ p ∈ s.index.mapBlockIndex, s'.index.entry p = s.index.entry p := by
    intro p hp
    rw [ha.index, BlockIndex.add_entry hp]
  have hnewhash : (s'.index.entry new).hash = hash := by
    rw [ha.entry_new, BlockIndex.newEntry_header.1]
    exact src.hash_block hash
  refine ⟨?_, ?_, ?_, ?_⟩
  · intro p hp
    rw [ha.mapBlockIndex] at hp
    rcases List.mem_cons.mp hp with rfl | hp
    · rw [hnewhash]
      cases hq : s'.index.pprev p with
      | some q =>
        obtain ⟨hqm, hfind⟩ := ha.pprev_new hq
        refine Or.inr ⟨?_, q, rfl, ?_⟩
        · -- the genesis block is the first one, so it finds no parent
          rintro rfl
          obtain ⟨g, hg, hgh⟩ := h.genesis (List.ne_nil_of_mem hqm)
          exact BlockIndex.find_none hnone g hg hgh
        · rw [hentry q hqm]
          exact (BlockIndex.find_some hfind).2
      | none =>
        refine Or.inl ⟨hpar.resolve_right ?_, rfl⟩
        rintro ⟨q, hfind⟩
        unfold BlockIndex.pprev at hq
        rw [ha.entry_new, BlockIndex.newEntry, hfind] at hq
        cases hq
    · rw [ha.pprev hp, hentry p hp]
      rcases h.parent p hp with hg | ⟨hne, q, hq, hqh⟩
      · exact Or.inl hg
      · refine Or.inr ⟨hne, q, hq, ?_⟩
        rw [hentry q (s.index.rooted.mem hp hq)]
        exact hqh
  · intro _
    by_cases hmap : s.index.mapBlockIndex = []
    · rcases hpar with rfl | ⟨q, hq⟩
      · exact ⟨new, by rw [ha.mapBlockIndex]; exact List.mem_cons_self, hnewhash⟩
      · have := (BlockIndex.find_some hq).1
        rw [hmap] at this
        cases this
    · obtain ⟨g, hg, hgh⟩ := h.genesis hmap
      exact ⟨g, by rw [ha.mapBlockIndex]; exact List.mem_cons_of_mem _ hg, by rw [hentry g hg]; exact hgh⟩
  · intro p hp
    rw [ha.mapBlockIndex] at hp
    rcases List.mem_cons.mp hp with rfl | hp
    · rw [hnewhash, ha.entry_new, BlockIndex.newEntry_header.2.2]
    · rw [hentry p hp]
      exact h.nTime p hp
  · intro p hp
    rw [ha.mapBlockIndex] at hp
    rcases List.mem_cons.mp hp with rfl | hp
    · rw [hnewhash, ha.entry_new, BlockIndex.newEntry_header.2.1]
    · rw [hentry p hp]
      exact h.nBits p hp

namespace SourceInv

variable {src : BlockSource} {s s' : ChainState} {p : Ptr}

theorem init (src : BlockSource) : SourceInv src ChainState.init :=
  ⟨.empty src, fun p hp => by simp [ChainState.init, BlockIndex.empty] at hp,
    fun p hp => by simp [ChainState.init, BlockIndex.empty] at hp⟩

theorem added (h : SourceInv src s) {new : Ptr} {hash : Uint256}
    (hpar : hash = src.hashGenesisBlock ∨ ∃ q, s.index.find (src.block hash).hashPrevBlock = some q)
    (hnone : s.index.find hash = none) (ha : Added s new (src.block hash).toCBlockHeader s') : SourceInv src s' := by
  refine ⟨h.toIndexOf.added hpar hnone ha, ?_, ?_⟩
  · intro p hp
    rw [ha.mapBlockIndex] at hp
    rcases List.mem_cons.mp hp with rfl | hp
    · rw [ha.status_new]
      rfl
    · rw [ha.status_old p hp, ha.index, BlockIndex.add_entry hp]
      exact h.nTx p hp
  · intro p hp
    rw [ha.mapBlockIndex] at hp
    rcases List.mem_cons.mp hp with rfl | hp
    · rw [ha.status_new]
    · rw [ha.status_old p hp]
      exact h.tree p hp

theorem received (h : SourceInv src s) {hash : Uint256} (hhash : (s.index.entry p).hash = hash) :
    SourceInv src (s.receivedBlockTransactions p (src.block hash).vtx.length) := by
  obtain ⟨hidx, -, hself, hother⟩ := received_frame s p (src.block hash).vtx.length
  obtain ⟨h₁, -, h₃, -, -, h₆, -⟩ := (s.status p).received_spec (src.block hash).vtx.length
  refine ⟨by rw [hidx]; exact h.toIndexOf, ?_, ?_⟩
  · rw [hidx]
    intro r hr
    by_cases hrp : r = p
    · subst hrp
      have htx := congrArg BlockStatus.nTx hself
      have hd := congrArg BlockStatus.haveData hself
      simp only [BlockStatus.core] at htx hd
      rw [htx, hd, h₁, h₃, hhash, if_pos rfl]
    · have htx := congrArg BlockStatus.nTx (hother r hrp)
      have hd := congrArg BlockStatus.haveData (hother r hrp)
      simp only [BlockStatus.core] at htx hd
      rw [htx, hd]
      exact h.nTx r hr
  · rw [hidx]
    intro r hr
    have htree := h.tree r hr
    by_cases hrp : r = p
    · subst hrp
      have hv := congrArg BlockStatus.nValid hself
      simp only [BlockStatus.core] at hv
      omega
    · have hv := congrArg BlockStatus.nValid (hother r hrp)
      simp only [BlockStatus.core] at hv
      omega

theorem received_links (h : SourceInv src s) (hl : LinkInv s []) (hb : TreeBound src s.index) {hash : Uint256}
    (hp : p ∈ s.index.mapBlockIndex) (hhash : (s.index.entry p).hash = hash) (hnew : (s.status p).haveData = false)
    (hpos : 0 < (src.block hash).vtx.length)
    (hpar : ∀ q, s.index.pprev p = some q → (s.status q).failed = false) {J : ChainState → Prop}
    (hJ : ∀ s p queue, LinkInv s (p :: queue) → s.TxBound → J s → J (s.linkEntry p))
    (hs : ∀ l, J { s.setStatus p (fun st => st.received (src.block hash).vtx.length) with mapBlocksUnlinked := l }) :
    LinkInv (s.receivedBlockTransactions p (src.block hash).vtx.length) [] ∧
      J (s.receivedBlockTransactions p (src.block hash).vtx.length) := by
  have hlen : (src.block hash).vtx.length < 2 ^ 32 := by
    rw [← hhash]
    exact Nat.lt_of_le_of_lt (treeSum_ge hp) (hb p hp)
  refine hl.receivedBlockTransactions hp hnew (by rw [Nat.mod_eq_of_lt hlen]; exact hpos) (fun q hq => ?_) ?_ hJ hs
  · unfold BlockStatus.isValid
    rw [hpar q hq]
    simpa using h.tree q (s.index.rooted.mem hp hq)
  · refine chainSum_le (fun r hr => ?_) hb
    by_cases hrp : r = p
    · subst hrp
      simp only [setStatus, Function.update_self, hhash]
      exact Nat.mod_le _ _
    · simp only [setStatus, Function.update_of_ne hrp]
      exact h.nTx_le r hr

end SourceInv

/-! ## Every order of arrivals -/

/-- The data of the block with this hash are there. -/
def ChainState.HasBlock (s : ChainState) (hash : Uint256) : Prop :=
  ∃ p ∈ s.index.mapBlockIndex, (s.index.entry p).hash = hash ∧ (s.status p).haveData = true

theorem TreeBound.of_step {src : BlockSource} {s : ChainState} {a : Arrival}
    (hb : TreeBound src (a.step src s).index) : TreeBound src s.index := by
  cases a with
  | header new hash =>
    rcases acceptHeader_cases src s new hash with heq | ⟨-, -, ha⟩
    · rwa [show Arrival.step src s (.header new hash) = s from heq] at hb
    · exact hb.of_added ha
  | data hash =>
    rcases acceptData_cases src s hash with heq | ⟨p, -, -, -, -, -, -, heq⟩
    · rwa [show Arrival.step src s (.data hash) = s from heq] at hb
    · rwa [show Arrival.step src s (.data hash) = _ from heq, (received_frame s p _).1] at hb

theorem step_sourceInv {src : BlockSource} {s : ChainState} {a : Arrival} (hs : SourceInv src s) :
    SourceInv src (a.step src s) := by
  cases a with
  | header new hash =>
    rcases acceptHeader_cases src s new hash with heq | ⟨hpar, hnone, ha⟩
    · rw [show Arrival.step src s (.header new hash) = s from heq]
      exact hs
    · refine hs.added ?_ hnone ha
      rcases hpar with hg | ⟨q, hq, -⟩
      · exact Or.inl hg
      · exact Or.inr ⟨q, hq⟩
  | data hash =>
    rcases acceptData_cases src s hash with heq | ⟨p, -, hh, -, -, -, -, heq⟩
    · rw [show Arrival.step src s (.data hash) = s from heq]
      exact hs
    · rw [show Arrival.step src s (.data hash) = _ from heq]
      exact hs.received hh

theorem step_linkInv {src : BlockSource} {s : ChainState} {a : Arrival} (hs : SourceInv src s) (hl : LinkInv s [])
    (hb : TreeBound src s.index) : LinkInv (a.step src s) [] := by
  cases a with
  | header new hash =>
    rcases acceptHeader_cases src s new hash with heq | ⟨-, -, ha⟩
    · rw [show Arrival.step src s (.header new hash) = s from heq]
      exact hl
    · exact hl.added ha
  | data hash =>
    rcases acceptData_cases src s hash with heq | ⟨p, hp, hh, -, hd, hlen, hpar, heq⟩
    · rw [show Arrival.step src s (.data hash) = s from heq]
      exact hl
    · rw [show Arrival.step src s (.data hash) = _ from heq]
      exact (hs.received_links hl hb hp hh hd hlen hpar (J := fun _ => True) (fun _ _ _ _ _ _ => trivial)
        fun _ => trivial).1

theorem LinkInv.init : LinkInv ChainState.init [] :=
  ⟨fun p hp => by simp [ChainState.init, BlockIndex.empty] at hp, by simp,
    fun p hp => by simp [ChainState.init, BlockIndex.empty] at hp, fun q p h => by simp [ChainState.init] at h,
    List.nodup_nil, List.nodup_nil, fun p hp => by simp [ChainState.init, BlockIndex.empty] at hp⟩

theorem TreeBound.of_foldl {src : BlockSource} : ∀ {as : List Arrival} {s : ChainState},
    TreeBound src (as.foldl (Arrival.step src) s).index → TreeBound src s.index
  | [], _, hb => hb
  | a :: as, s, hb => (@TreeBound.of_foldl src as (a.step src s) hb).of_step

theorem foldl_linkInv {src : BlockSource} : ∀ {as : List Arrival} {s : ChainState}, SourceInv src s → LinkInv s [] →
    TreeBound src (as.foldl (Arrival.step src) s).index →
    SourceInv src (as.foldl (Arrival.step src) s) ∧ LinkInv (as.foldl (Arrival.step src) s) []
  | [], _, hs, hl, _ => ⟨hs, hl⟩
  | a :: as, s, hs, hl, hb => by
    have hl' := step_linkInv (a := a) hs hl (@TreeBound.of_foldl src (a :: as) s hb)
    rw [List.foldl_cons] at hb ⊢
    exact foldl_linkInv (step_sourceInv hs) hl' hb

theorem run_linkInv {src : BlockSource} {as : List Arrival} (hb : TreeBound src (runArrivals src as).index) :
    SourceInv src (runArrivals src as) ∧ LinkInv (runArrivals src as) [] :=
  foldl_linkInv (.init src) .init hb

theorem nChainTx_congr {src : BlockSource} {s s' : ChainState} (hs : SourceInv src s) (hs' : SourceInv src s')
    (hl : LinkInv s []) (hl' : LinkInv s' []) (hsame : ∀ hash, s.HasBlock hash ↔ s'.HasBlock hash) :
    ∀ p ∈ s.index.mapBlockIndex, ∀ p' ∈ s'.index.mapBlockIndex, (s.index.entry p).hash = (s'.index.entry p').hash →
      (s.status p).nChainTx = (s'.status p').nChainTx := by
  refine s.index.rooted.induct_on fun p hp ih p' hp' hh => ?_
  have hdata : (s.status p).haveData = (s'.status p').haveData := by
    rw [Bool.eq_iff_iff]
    constructor
    · intro hd
      obtain ⟨r, hr, hrh, hrd⟩ := (hsame _).mp ⟨p, hp, rfl, hd⟩
      rwa [s'.index.hash_inj r hr p' hp' (hrh.trans hh)] at hrd
    · intro hd
      obtain ⟨r, hr, hrh, hrd⟩ := (hsame _).mpr ⟨p', hp', rfl, hd⟩
      rwa [s.index.hash_inj r hr p hp (hrh.trans hh.symm)] at hrd
  have htx : (s.status p).nTx = (s'.status p').nTx := by
    rw [hs.nTx p hp, hs'.nTx p' hp', hdata, hh]
  -- the parents are the genesis block's or have the same hash
  have hparent : s.parentChainTx p = s'.parentChainTx p' ∧
      ((∀ q, s.index.pprev p = some q → (s.status q).nChainTx ≠ 0) ↔
        ∀ q, s'.index.pprev p' = some q → (s'.status q).nChainTx ≠ 0) := by
    unfold ChainState.parentChainTx
    rcases hs.parent p hp with ⟨hg, hq⟩ | ⟨hg, q, hq, hqh⟩ <;>
      rcases hs'.parent p' hp' with ⟨hg', hq'⟩ | ⟨hg', q', hq', hqh'⟩
    · rw [hq, hq']
      simp
    · exact absurd (hh.symm.trans hg) hg'
    · exact absurd (hh.trans hg') hg
    · have heq := ih q hq q' (s'.index.rooted.mem hp' hq') (by rw [hqh, hqh', hh])
      rw [hq, hq']
      simp [heq]
  obtain ⟨hne, hval⟩ := hl.nChainTx_local hp
  obtain ⟨hne', hval'⟩ := hl'.nChainTx_local hp'
  rw [hdata, hparent.2, ← hne'] at hne
  by_cases hz : (s.status p).nChainTx = 0
  · rw [hz]
    by_contra h
    exact (hne.mpr (Ne.symm h)) hz
  · rw [hval hz, hval' (hne.mp hz), hparent.1, htx]

/-- **Linking does not depend on the order of arrivals.** As long as no path has `2 ^ 32` transactions, `nChainTx` and
`mapBlocksUnlinked` say what arrived, and two runs after which the same blocks are there give each block the same
`nChainTx`. -/
theorem links_of_arrivals {src : BlockSource} {as : List Arrival}
    (hb : TreeBound src (runArrivals src as).index) : LinksOk (runArrivals src as) ∧
      ∀ as', TreeBound src (runArrivals src as').index →
        (∀ hash, (runArrivals src as).HasBlock hash ↔ (runArrivals src as').HasBlock hash) →
        ∀ p ∈ (runArrivals src as).index.mapBlockIndex, ∀ p' ∈ (runArrivals src as').index.mapBlockIndex,
          ((runArrivals src as).index.entry p).hash = ((runArrivals src as').index.entry p').hash →
          ((runArrivals src as).status p).nChainTx = ((runArrivals src as').status p').nChainTx := by
  obtain ⟨hs, hl⟩ := run_linkInv hb
  refine ⟨hl.linksOk, fun as' hb' hsame => ?_⟩
  obtain ⟨hs', hl'⟩ := run_linkInv hb'
  exact nChainTx_congr hs hs' hl hl' hsame

/-! ## The counter wraps -/

/-- A chain in which every block has `k` transactions: block `h` follows block `h - 1`, and block 0 is the genesis
block. -/
def chainSource (k : Nat) : BlockSource where
  block h := ⟨⟨h, 7, h - 1, 0, 0, 0, 0⟩, List.replicate k ⟨0, 1, [], [], 0⟩⟩
  hash_block _ := rfl
  hashGenesisBlock := 0

/-- Two blocks arrive, the data of the second one first. -/
def twoArrivals : List Arrival := [.header 10 0, .header 20 1, .data 1, .data 0]

theorem links_of_twoArrivals : LinksOk (runArrivals (chainSource 3) twoArrivals) ∧
    ((runArrivals (chainSource 3) twoArrivals).status 20).nChainTx = 6 := by
  have hb : TreeBound (chainSource 3) (runArrivals (chainSource 3) twoArrivals).index := by
    unfold TreeBound
    decide
  exact ⟨(links_of_arrivals hb).1, by decide⟩

/-- The first `n` blocks of the chain arrive in order. -/
def chainArrivals (n : Nat) : List Arrival := (List.range n).flatMap fun i => [.header i (.ofNat 256 i), .data (.ofNat 256 i)]

/-- The state after the first `n` blocks of the chain, but for the links. -/
structure Straight (n : Nat) (s : ChainState) : Prop where
  map : s.index.mapBlockIndex = (List.range n).reverse
  hash : ∀ i < n, (s.index.entry i).hash = .ofNat 256 i
  pprev : ∀ i < n, s.index.pprev i = if i = 0 then none else some (i - 1)
  haveData : ∀ i < n, (s.status i).haveData = true
  failed : ∀ i < n, (s.status i).failed = false

theorem Straight.mem {n : Nat} {s : ChainState} (h : Straight n s) {i : Nat} : i ∈ s.index.mapBlockIndex ↔ i < n := by
  rw [h.map, List.mem_reverse, List.mem_range]

theorem ofNat_inj {i j : Nat} (hi : i < 2 ^ 256) (hj : j < 2 ^ 256) (h : BitVec.ofNat 256 i = BitVec.ofNat 256 j) :
    i = j := by
  have := congrArg BitVec.toNat h
  rwa [BitVec.toNat_ofNat, BitVec.toNat_ofNat, Nat.mod_eq_of_lt hi, Nat.mod_eq_of_lt hj] at this

theorem Straight.header {k n : Nat} {s : ChainState} (h : Straight n s) (hn : n < 2 ^ 256) :
    Added s n ((chainSource k).block (.ofNat 256 n)).toCBlockHeader
      (acceptHeader (chainSource k) s n (.ofNat 256 n)) ∧
    (acceptHeader (chainSource k) s n (.ofNat 256 n)).index.pprev n = if n = 0 then none else some (n - 1) := by
  have hfresh : n ∉ s.index.mapBlockIndex := by rw [h.mem]; omega
  have hnone : s.index.find (.ofNat 256 n) = none := by
    refine List.find?_eq_none.mpr fun i hi => ?_
    have hi' := h.mem.mp hi
    rw [h.hash i hi', beq_iff_eq]
    intro heq
    have := ofNat_inj (by omega) hn heq
    omega
  have hadd : Added s n ((chainSource k).block (.ofNat 256 n)).toCBlockHeader
      (s.addToBlockIndex n ((chainSource k).block (.ofNat 256 n)).toCBlockHeader).2 :=
    addToBlockIndex_added hfresh hnone
  have hprev : s.index.find ((chainSource k).block (.ofNat 256 n)).hashPrevBlock = if n = 0 then none else some (n - 1) := by
    split
    · rename_i h0
      rw [BlockIndex.find, h.map, h0]
      rfl
    · rename_i h0
      have hlt : n - 1 < n := by omega
      have hhash : ((chainSource k).block (.ofNat 256 n)).hashPrevBlock = (s.index.entry (n - 1)).hash := by
        rw [h.hash _ hlt]
        show BitVec.ofNat 256 n - BitVec.ofNat 256 1 = BitVec.ofNat 256 (n - 1)
        rw [BitVec.ofNat_sub_ofNat_of_le _ _ (by omega) (by omega)]
      rw [hhash]
      exact BlockIndex.find_eq (h.mem.mpr hlt)
  have hacc : acceptHeader (chainSource k) s n (.ofNat 256 n) =
      (s.addToBlockIndex n ((chainSource k).block (.ofNat 256 n)).toCBlockHeader).2 := by
    unfold acceptHeader
    rw [if_neg (by simp [hfresh, hnone])]
    split
    · rfl
    · rename_i hg
      have h0 : n ≠ 0 := by rintro rfl; exact hg rfl
      rw [hprev, if_neg h0]
      simp only
      rw [h.failed (n - 1) (by omega)]
      rfl
  rw [hacc]
  refine ⟨hadd, ?_⟩
  unfold BlockIndex.pprev
  rw [hadd.entry_new, BlockIndex.newEntry, hprev]
  by_cases h0 : n = 0 <;> simp [h0]

theorem Straight.next {k n : Nat} (hk : 0 < k) {s : ChainState} (h : Straight n s) (hn : n < 2 ^ 256) :
    Straight (n + 1) (acceptData (chainSource k) (acceptHeader (chainSource k) s n (.ofNat 256 n)) (.ofNat 256 n)) := by
  obtain ⟨hadd, hpprev⟩ := h.header (k := k) hn
  set s₁ := acceptHeader (chainSource k) s n (.ofNat 256 n)
  have hmap : s₁.index.mapBlockIndex = (List.range (n + 1)).reverse := by
    rw [hadd.mapBlockIndex, h.map, List.range_succ, List.reverse_append]
    rfl
  have hmem : n ∈ s₁.index.mapBlockIndex := by rw [hadd.mapBlockIndex]; exact List.mem_cons_self
  have hnew : (s₁.index.entry n).hash = .ofNat 256 n := by
    rw [hadd.entry_new, BlockIndex.newEntry_header.1]
    rfl
  have hold : ∀ i < n, s₁.index.entry i = s.index.entry i ∧ s₁.status i = s.status i := by
    intro i hi
    rw [hadd.index, BlockIndex.add_entry (h.mem.mpr hi)]
    exact ⟨rfl, hadd.status_old i (h.mem.mpr hi)⟩
  have hacc : acceptData (chainSource k) s₁ (.ofNat 256 n) = s₁.receivedBlockTransactions n k := by
    unfold acceptData
    rw [← hnew, BlockIndex.find_eq hmem, hnew]
    simp only [hadd.status_new, hpprev]
    have hvtx : ((chainSource k).block (.ofNat 256 n)).vtx.length = k := List.length_replicate
    have hempty : ((chainSource k).block (.ofNat 256 n)).vtx.isEmpty = false := by
      rw [List.isEmpty_eq_false_iff, ← List.length_pos_iff, hvtx]
      exact hk
    rw [hvtx, hempty]
    by_cases h0 : n = 0
    · simp [h0, BlockStatus.failed]
    · have hlt : n - 1 < n := by omega
      simp [h0, BlockStatus.failed, (hold _ hlt).2, show (s.status (n - 1)).failedValid = false ∧
        (s.status (n - 1)).failedChild = false by simpa [BlockStatus.failed] using h.failed _ hlt]
  rw [hacc]
  obtain ⟨hidx, -, hself, hother⟩ := received_frame s₁ n k
  refine ⟨by rw [hidx]; exact hmap, ?_, ?_, ?_, ?_⟩
  · intro i hi
    rw [hidx]
    rcases Nat.lt_succ_iff_lt_or_eq.mp hi with hi | rfl
    · rw [(hold i hi).1]; exact h.hash i hi
    · exact hnew
  · intro i hi
    rw [hidx]
    rcases Nat.lt_succ_iff_lt_or_eq.mp hi with hi | rfl
    · rw [hadd.pprev (h.mem.mpr hi)]; exact h.pprev i hi
    · exact hpprev
  · intro i hi
    rcases Nat.lt_succ_iff_lt_or_eq.mp hi with hi | rfl
    · have := congrArg BlockStatus.haveData (hother i (Nat.ne_of_lt hi))
      exact this.trans (by rw [(hold i hi).2]; exact h.haveData i hi)
    · have := congrArg BlockStatus.haveData hself
      exact this.trans ((s₁.status i).received_spec k).2.2.1
  · intro i hi
    rcases Nat.lt_succ_iff_lt_or_eq.mp hi with hi | rfl
    · have := congrArg BlockStatus.failed (hother i (Nat.ne_of_lt hi))
      exact this.trans (by rw [(hold i hi).2]; exact h.failed i hi)
    · have := congrArg BlockStatus.failed hself
      obtain ⟨-, -, -, h₄, h₅, -⟩ := (s₁.status i).received_spec k
      refine this.trans ?_
      show ((s₁.status i).received k).failed = false
      rw [BlockStatus.failed, h₄, h₅, hadd.status_new]
      rfl

theorem straight_run {k : Nat} (hk : 0 < k) : ∀ n < 2 ^ 256, Straight n (runArrivals (chainSource k) (chainArrivals n))
  | 0, _ => ⟨rfl, by simp, by simp, by simp, by simp⟩
  | n + 1, hn => by
    have h := (straight_run hk n (by omega)).next hk (by omega)
    have hrun : runArrivals (chainSource k) (chainArrivals (n + 1)) = acceptData (chainSource k)
        (acceptHeader (chainSource k) (runArrivals (chainSource k) (chainArrivals n)) n (.ofNat 256 n)) (.ofNat 256 n) := by
      simp only [runArrivals, chainArrivals, List.range_succ, List.flatMap_append, List.foldl_append]
      rfl
    rw [hrun]
    exact h

theorem linkQueue_lt : ∀ (fuel : Nat) (queue : List Ptr) (s : ChainState), (∀ p, (s.status p).nChainTx < 2 ^ 32) →
    ∀ p, ((linkQueue fuel queue s).status p).nChainTx < 2 ^ 32
  | 0, _, _, h => h
  | _ + 1, [], _, h => h
  | fuel + 1, p :: queue, s, h => by
    refine linkQueue_lt fuel _ _ fun r => ?_
    rw [linkEntry_status]
    by_cases hr : r = p
    · subst hr
      rw [Function.update_self]
      exact Nat.mod_lt _ (by decide)
    · rw [Function.update_of_ne hr]
      exact h r

theorem step_nChainTx_lt (src : BlockSource) (s : ChainState) (a : Arrival) (h : ∀ p, (s.status p).nChainTx < 2 ^ 32) :
    ∀ p, ((a.step src s).status p).nChainTx < 2 ^ 32 := by
  cases a with
  | header new hash =>
    have hadd : ∀ p, ((s.addToBlockIndex new (src.block hash).toCBlockHeader).2.status p).nChainTx < 2 ^ 32 := by
      intro p
      unfold ChainState.addToBlockIndex
      split
      · exact h p
      · by_cases hp : p = new
        · subst hp
          simp only [Function.update_self]
          decide
        · simp only [Function.update_of_ne hp]
          exact h p
    show ∀ p, ((acceptHeader src s new hash).status p).nChainTx < 2 ^ 32
    unfold acceptHeader
    split
    · exact h
    · split
      · exact hadd
      · split
        · exact h
        · split
          · exact h
          · exact hadd
  | data hash =>
    show ∀ p, ((acceptData src s hash).status p).nChainTx < 2 ^ 32
    rcases acceptData_cases src s hash with heq | ⟨q, -, -, -, -, -, -, heq⟩
    · rw [heq]
      exact h
    · rw [heq]
      have hstart : ∀ p, ((s.setStatus q fun st => st.received (src.block hash).vtx.length).status p).nChainTx < 2 ^ 32 := by
        intro p
        by_cases hp : p = q
        · subst hp
          simp only [setStatus, Function.update_self]
          rw [((s.status p).received_spec _).2.1]
          decide
        · simp only [setStatus, Function.update_of_ne hp]
          exact h p
      unfold ChainState.receivedBlockTransactions
      dsimp only
      split
      · exact linkQueue_lt _ _ _ hstart
      · split
        · exact linkQueue_lt _ _ _ hstart
        · split <;> exact hstart

theorem run_nChainTx_lt (src : BlockSource) (as : List Arrival) :
    ∀ p, ((runArrivals src as).status p).nChainTx < 2 ^ 32 := by
  refine List.foldlRecOn as _ (motive := fun s : ChainState => ∀ p, (s.status p).nChainTx < 2 ^ 32) ?_ fun s hs a _ => ?_
  · intro p
    simp [ChainState.init, BlockStatus.init]
  · exact step_nChainTx_lt src s a hs

theorem run_sourceInv (src : BlockSource) (as : List Arrival) : SourceInv src (runArrivals src as) :=
  List.foldlRecOn as _ (motive := SourceInv src) (.init src) fun _ hs _ _ => step_sourceInv hs

theorem straight_sum {k n : Nat} (hk : 0 < k) (hn : n < 2 ^ 256) : ∀ i < n,
    (runArrivals (chainSource k) (chainArrivals n)).chainSum i = (i + 1) * (k % 2 ^ 32) := by
  have hst := straight_run hk n hn
  have htx : ∀ i < n, ((runArrivals (chainSource k) (chainArrivals n)).status i).nTx = k % 2 ^ 32 := by
    intro i hi
    rw [(run_sourceInv _ _).nTx i (hst.mem.mpr hi), hst.haveData i hi, if_pos rfl]
    exact congrArg (· % 2 ^ 32) List.length_replicate
  intro i
  induction i with
  | zero =>
    intro hi
    rw [chainSum_none (hst.mem.mpr hi) (by rw [hst.pprev 0 hi]; rfl), htx 0 hi, Nat.zero_add, Nat.one_mul]
  | succ i ih =>
    intro hi
    have hq : (runArrivals (chainSource k) (chainArrivals n)).index.pprev (i + 1) = some i := by
      rw [hst.pprev _ hi]
      rfl
    rw [chainSum_some (hst.mem.mpr hi) hq, htx _ hi, ih (Nat.lt_of_succ_lt hi), Nat.succ_mul (i + 1), Nat.add_comm]

/-- After `2 ^ 20` blocks of 4096 transactions `nChainTx` of the last block does not count the transactions. -/
theorem nChainTx_wraps : ¬ ∀ (src : BlockSource) (as : List Arrival), LinksOk (runArrivals src as) := by
  intro hall
  obtain ⟨last, hlast⟩ : ∃ last : Nat, last + 1 = 2 ^ 20 := ⟨2 ^ 20 - 1, by omega⟩
  have hlt : last < 2 ^ 20 := by omega
  have hst := straight_run (k := 4096) (by omega) (2 ^ 20) (by omega)
  have hdata : (runArrivals (chainSource 4096) (chainArrivals (2 ^ 20))).AllData last := by
    intro a ha
    exact hst.haveData a (hst.mem.mp (BlockIndex.rooted _ |>.anc_mem (hst.mem.mpr hlt) ha))
  have hcount := (hall (chainSource 4096) (chainArrivals (2 ^ 20))).count last (hst.mem.mpr hlt) hdata
  rw [straight_sum (by omega) (by omega) last hlt, hlast] at hcount
  have := run_nChainTx_lt (chainSource 4096) (chainArrivals (2 ^ 20)) last
  rw [hcount] at this
  omega

end DigiWage
