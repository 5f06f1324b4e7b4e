import DigiWage.Chain.Candidates
import DigiWage.Net.InFlight

/-!
# Block download requests

`ProcessBlockAvailability`, `UpdateBlockAvailability`, `LastCommonAncestor` and `FindNextBlocksToDownload` of `main.cpp`. The blocks
to ask a peer for are found by a walk forward from the last common block, or, while nothing is known about the peer in the
initial download, by a walk back from the best header.

* `walkForward_spec`: the forward walk, in whatever chunks, does a part of the entries from the lowest up.
-/

namespace DigiWage.Net

open Lib

def MAX_BLOCKS_IN_TRANSIT_PER_PEER : Nat := 512

def BLOCK_DOWNLOAD_WINDOW : Nat := 1024

/-! ## The blocks of a peer -/

/-- The fields of `CNodeState` about the blocks that a peer has. -/
structure PeerBlocks where
  hashLastUnknownBlock : Uint256
  pindexBestKnownBlock : Option Ptr
  pindexLastCommonBlock : Option Ptr
deriving DecidableEq

namespace PeerBlocks

/-- The fields after `CNodeState::CNodeState`. -/
def new : PeerBlocks := ⟨0, none, none⟩

variable (s : ChainState) (state : PeerBlocks)

/-- The entry is the best known block, unless the best one so far has more work. -/
def announced (it : Ptr) : Option Ptr :=
  match state.pindexBestKnownBlock with
  | none => some it
  | some best => if s.index.work best ≤ s.index.work it then some it else some best

def processBlockAvailability : PeerBlocks :=
  if state.hashLastUnknownBlock = 0 then state
  else
    match s.index.find state.hashLastUnknownBlock with
    | none => state
    | some itOld =>
      if 0 < s.index.work itOld then
        { state with pindexBestKnownBlock := state.announced s itOld, hashLastUnknownBlock := 0 }
      else state

def updateBlockAvailability (hash : Uint256) : PeerBlocks :=
  let state := state.processBlockAvailability s
  match s.index.find hash with
  | none => { state with hashLastUnknownBlock := hash }
  | some it =>
    if 0 < s.index.work it then { state with pindexBestKnownBlock := state.announced s it }
    else { state with hashLastUnknownBlock := hash }

end PeerBlocks

/-! ## Common ancestors -/

/-- The loop of `LastCommonAncestor`, with the assertion behind it. -/
def lastCommonLoop (t : BlockIndex) : Nat → Option Ptr → Option Ptr → Option (Option Ptr)
  | 0, pa, pb => if pa = pb then some pa else none
  | fuel + 1, some pa, some pb => if pa = pb then some (some pa) else lastCommonLoop t fuel (t.pprev pa) (t.pprev pb)
  | _ + 1, pa, pb => if pa = pb then some pa else none

/-- `LastCommonAncestor`; `none` where the assertion fails. -/
def lastCommonAncestor (t : BlockIndex) (pa pb : Ptr) : Option (Option Ptr) :=
  let pa' := if t.nHeight pb < t.nHeight pa then t.getAncestor pa (t.nHeight pb) else some pa
  let pb' := if t.nHeight pa < t.nHeight pb then t.getAncestor pb (t.nHeight pa) else some pb
  lastCommonLoop t (t.nHeight pa + 1) pa' pb'

/-! ## The initial download -/

/-- What `IsInitialBlockDownload` depends on. It sets `lockIBDState` where it returns false. -/
structure InitialDownload where
  fImporting : Bool
  fReindex : Bool
  fVerifyingBlocks : Bool
  /-- `Checkpoints::GetTotalBlocksEstimate()`. -/
  nTotalBlocksEstimate : Int
  lockIBDState : Bool
  nMaxTipAge : Int
  /-- `GetTime()`. -/
  nTime : Int

/-- `IsInitialBlockDownload`; `none` where it follows a null pointer. -/
def InitialDownload.isInitialBlockDownload (ibd : InitialDownload) (s : ChainState) : Option Bool :=
  let chainHeight : Int := s.chainActive.vChain.length - 1
  if ibd.fImporting || ibd.fReindex || ibd.fVerifyingBlocks || decide (chainHeight < ibd.nTotalBlocksEstimate) then some true
  else if ibd.lockIBDState then some false
  else do
    let pindexBestHeader ← s.pindexBestHeader
    some (decide (chainHeight < s.index.nHeight pindexBestHeader - 24 * 6) ||
      decide ((s.index.entry pindexBestHeader).nTime < ibd.nTime - ibd.nMaxTipAge))

/-! ## The blocks to ask for -/

/-- What a call depends on, but for the blocks of the peer. -/
structure DownloadEnv where
  chain : ChainState
  ibd : InitialDownload
  mapBlocksInFlight : AList fun _ : Uint256 => NodeId × ListNode
  nodeid : NodeId
  nStartingHeight : Int

/-- What the forward walk changes. -/
structure FetchState where
  vBlocks : List Ptr
  pindexLastCommonBlock : Ptr
  waitingfor : NodeId
  nodeStaller : NodeId

/-- The results of a call. -/
structure Download where
  vBlocks : List Ptr
  state : PeerBlocks
  nodeStaller : NodeId

namespace DownloadEnv

variable (env : DownloadEnv)

/-- The node that a block is requested from. -/
def inFlightFrom (p : Ptr) : Option NodeId := (env.mapBlocksInFlight.lookup (env.chain.index.entry p).hash).map Prod.fst

/-- Neither downloaded nor requested. -/
def missing (p : Ptr) : Bool := !(env.chain.status p).haveData && (env.inFlightFrom p).isNone

/-- `max_height` of the parallel download. -/
def maxHeight (pindexBestHeader tip : Ptr) : Int :=
  min (min ((env.chain.index.nHeight pindexBestHeader : Int) - MAX_BLOCKS_IN_TRANSIT_PER_PEER) env.nStartingHeight)
    (env.chain.index.nHeight tip + MAX_BLOCKS_IN_TRANSIT_PER_PEER * 16)

/-- The walk of the parallel download, from the best header down. -/
def walkBack (count : Nat) (max_height : Int) : List Ptr → List Ptr → List Ptr
  | [], to_fetch => to_fetch
  | pIndexWalk :: rest, to_fetch =>
    if max_height < env.chain.index.nHeight pIndexWalk then walkBack count max_height rest to_fetch
    else if env.chain.chainActive.contains env.chain.index pIndexWalk then to_fetch
    -- "this should never happen by fact"
    else if !(env.chain.status pIndexWalk).isValid BLOCK_VALID_TREE then to_fetch
    else if env.missing pIndexWalk then
      let to_fetch := if count ≤ to_fetch.length then to_fetch.drop 1 else to_fetch
      walkBack count max_height rest (to_fetch ++ [pIndexWalk])
    else walkBack count max_height rest to_fetch

/-- The end of `vToFetch` is filled by following `pprev`. -/
def fillBack : Nat → Ptr → Option (List Ptr)
  | 0, p => some [p]
  | n + 1, p => do
    let q ← env.chain.index.pprev p
    let vToFetch ← fillBack n q
    some (vToFetch ++ [p])

/-- The loop over `vToFetch`, with whether the function returns. -/
def fetchLoop (count : Nat) (nWindowEnd : Nat) : List Ptr → FetchState → Bool × FetchState
  | [], st => (false, st)
  | pindex :: rest, st =>
    -- we consider the chain that this peer is on invalid
    if !(env.chain.status pindex).isValid BLOCK_VALID_TREE then (true, st)
    else if (env.chain.status pindex).haveData then
      fetchLoop count nWindowEnd rest
        (if (env.chain.status pindex).nChainTx ≠ 0 then { st with pindexLastCommonBlock := pindex } else st)
    else
      match env.inFlightFrom pindex with
      | none =>
        if nWindowEnd < env.chain.index.nHeight pindex then
          (true, if st.vBlocks = [] ∧ st.waitingfor ≠ env.nodeid then { st with nodeStaller := st.waitingfor } else st)
        else
          let st := { st with vBlocks := st.vBlocks ++ [pindex] }
          if st.vBlocks.length = count then (true, st) else fetchLoop count nWindowEnd rest st
      | some nodeid =>
        fetchLoop count nWindowEnd rest (if st.waitingfor = -1 then { st with waitingfor := nodeid } else st)

/-- How many successors of an entry at `nHeight` are read at once. -/
def nToFetch (count nMaxHeight nHeight : Nat) (st : FetchState) : Nat :=
  min (nMaxHeight - nHeight) (max (((count - st.vBlocks.length : Nat) : Int).bmod (2 ^ 32)) 128).toNat

/-- The forward walk. Each round comes closer to `nMaxHeight`. -/
def walkForward (best : Ptr) (count nWindowEnd nMaxHeight : Nat) : Nat → Ptr → FetchState → Option FetchState
  | 0, pindexWalk, st => if env.chain.index.nHeight pindexWalk < nMaxHeight then none else some st
  | fuel + 1, pindexWalk, st =>
    if env.chain.index.nHeight pindexWalk < nMaxHeight then do
      let n := nToFetch count nMaxHeight (env.chain.index.nHeight pindexWalk) st
      let pindexWalk ← env.chain.index.getAncestor best (env.chain.index.nHeight pindexWalk + n)
      let vToFetch ← env.fillBack (n - 1) pindexWalk
      match env.fetchLoop count nWindowEnd vToFetch st with
      | (true, st) => some st
      | (false, st) => walkForward best count nWindowEnd nMaxHeight fuel pindexWalk st
    else some st

/-- The last common block, or a first guess: "bootstrap quickly by guessing a parent of our best tip is the forking point". -/
def bootstrap (state : PeerBlocks) (best : Ptr) : Option Ptr :=
  match state.pindexLastCommonBlock with
  | some p => some p
  | none => env.chain.chainActive.get (min (env.chain.index.nHeight best) (env.chain.chainActive.vChain.length - 1))

/-- The part of `FindNextBlocksToDownload` for a peer whose best block is known. -/
def findSuccessors (count : Nat) (state : PeerBlocks) (best : Ptr) : Option Download := do
  let pindexLastCommonBlock ← env.bootstrap state best
  -- go back enough for a peer that reorganized
  let fork ← lastCommonAncestor env.chain.index pindexLastCommonBlock best
  if fork = some best then some ⟨[], { state with pindexLastCommonBlock := fork }, -1⟩
  else do
    let fork ← fork
    let nWindowEnd := env.chain.index.nHeight fork + BLOCK_DOWNLOAD_WINDOW
    let nMaxHeight := min (env.chain.index.nHeight best) (nWindowEnd + 1)
    let st ← env.walkForward best count nWindowEnd nMaxHeight (nMaxHeight - env.chain.index.nHeight fork) fork ⟨[], fork, -1, -1⟩
    some ⟨st.vBlocks, { state with pindexLastCommonBlock := some st.pindexLastCommonBlock }, st.nodeStaller⟩

/-- `FindNextBlocksToDownload`, with no block in `vBlocks` and no staller before, as `SendMessages` calls it. There is no result
where a null pointer is followed or an assertion fails. -/
def findNextBlocksToDownload (count : Nat) (state : PeerBlocks) : Option Download :=
  if count = 0 then some ⟨[], state, -1⟩
  else do
    let state := state.processBlockAvailability env.chain
    match state.pindexBestKnownBlock with
    | none => do
      let fInitial ← env.ibd.isInitialBlockDownload env.chain
      match fInitial, env.chain.pindexBestHeader with
      -- a special case to do parallel initial download
      | true, some pindexBestHeader => do
        let tip ← env.chain.tip
        let max_height := env.maxHeight pindexBestHeader tip
        some ⟨env.walkBack count max_height (env.chain.index.path pindexBestHeader) [], state, -1⟩
      | _, _ => some ⟨[], state, -1⟩
    | some best => do
      let tip ← env.chain.tip
      if env.chain.index.work best < env.chain.index.work tip then some ⟨[], state, -1⟩
      else env.findSuccessors count state best

end DownloadEnv

/-! ## Serving nodes -/

/-- The block tree and the active chain once the genesis block is connected. -/
structure Serving (s : ChainState) : Prop where
  active : s.Active
  /-- There is one genesis block. -/
  root : ∀ p ∈ s.index.mapBlockIndex, ∀ q ∈ s.index.mapBlockIndex, s.index.pprev p = none → s.index.pprev q = none → p = q
  /-- "nChainTx == 0 is used to signal that all parent block's transaction data is available." -/
  linked : ∀ p ∈ s.index.mapBlockIndex, (s.status p).nChainTx ≠ 0 → s.AllData p
  chain : ∀ p, s.chainActive.contains s.index p = true → (s.status p).haveData = true

/-- The blocks of a peer are in the index, and the last common block has the data of all its ancestors. -/
structure PeerBlocks.Ok (s : ChainState) (state : PeerBlocks) : Prop where
  best : ∀ p, state.pindexBestKnownBlock = some p → p ∈ s.index.mapBlockIndex
  common : ∀ p, state.pindexLastCommonBlock = some p → p ∈ s.index.mapBlockIndex ∧ s.AllData p

/-- A node that asks a peer for blocks. `AppInit2` waits for a tip, and `SendMessages` sets a best header. -/
structure DownloadNode extends DownloadEnv where
  state : PeerBlocks
  tip : Ptr
  pindexBestHeader : Ptr
  serving : Serving chain
  tip_eq : chain.tip = some tip
  header_eq : chain.pindexBestHeader = some pindexBestHeader
  header_mem : pindexBestHeader ∈ chain.index.mapBlockIndex
  ok : state.Ok chain

namespace PeerBlocks

variable {s s' : ChainState} {state : PeerBlocks} {hash : Uint256}

theorem Ok.new : Ok s PeerBlocks.new := ⟨fun p h => (by cases h), fun p h => (by cases h)⟩

theorem announced_mem (h : state.Ok s) {it p : Ptr} (hit : it ∈ s.index.mapBlockIndex) (hp : state.announced s it = some p) :
    p ∈ s.index.mapBlockIndex := by
  unfold announced at hp
  cases hbest : state.pindexBestKnownBlock with
  | none =>
    rw [hbest] at hp
    cases hp
    exact hit
  | some best =>
    rw [hbest] at hp
    simp only at hp
    split at hp
    · cases hp
      exact hit
    · cases hp
      exact h.best _ hbest

theorem Ok.processBlockAvailability (h : state.Ok s) : (state.processBlockAvailability s).Ok s := by
  unfold PeerBlocks.processBlockAvailability
  split
  · exact h
  · split
    · exact h
    · rename_i itOld hfind
      split
      · exact ⟨fun p hp => announced_mem h (BlockIndex.find_some hfind).1 hp, h.common⟩
      · exact h

theorem Ok.updateBlockAvailability (h : state.Ok s) (hash : Uint256) : (state.updateBlockAvailability s hash).Ok s := by
  have hprocess := h.processBlockAvailability
  unfold PeerBlocks.updateBlockAvailability
  cases hfind : s.index.find hash with
  | none => exact ⟨hprocess.best, hprocess.common⟩
  | some it =>
    simp only
    split
    · exact ⟨fun p hp => announced_mem hprocess (BlockIndex.find_some hfind).1 hp, hprocess.common⟩
    · exact ⟨hprocess.best, hprocess.common⟩

/-- The index grows, and data stays. -/
structure Extends (s s' : ChainState) : Prop where
  mem : ∀ p ∈ s.index.mapBlockIndex, p ∈ s'.index.mapBlockIndex
  pprev : ∀ p ∈ s.index.mapBlockIndex, s'.index.pprev p = s.index.pprev p
  haveData : ∀ p ∈ s.index.mapBlockIndex, (s.status p).haveData = true → (s'.status p).haveData = true

theorem Ok.extend (h : state.Ok s) (hext : Extends s s') : state.Ok s' := by
  refine ⟨fun p hp => hext.mem p (h.best p hp), fun p hp => ?_⟩
  obtain ⟨hmem, hall⟩ := h.common p hp
  refine ⟨hext.mem p hmem, fun a ha => ?_⟩
  have hanc : s.index.IsAnc a p := (s.index.rooted.anc_congr hext.pprev hmem).mp ha
  exact hext.haveData a (s.index.rooted.anc_mem hmem hanc) (hall a hanc)

end PeerBlocks

/-! ## Serving and consistent states -/

theorem Serving.of_consistent {src : BlockSource} {s : ChainState} (h : ChainState.Consistent src s) : Serving s := by
  refine ⟨h.wf.active, fun p hp q hq hp0 hq0 => ?_, fun p hp hl a ha => (h.linked_anc hp hl ha).2, fun p hp => ?_⟩
  · have hgenesis : ∀ r ∈ s.index.mapBlockIndex, s.index.pprev r = none → (s.index.entry r).hash = src.hashGenesisBlock := by
      intro r hr hr0
      rcases h.source.parent r hr with ⟨hhash, -⟩ | ⟨-, q', hq', -⟩
      · exact hhash
      · rw [hr0] at hq'
        cases hq'
    have hfind := BlockIndex.find_eq hp
    rw [hgenesis p hp hp0, ← hgenesis q hq hq0, BlockIndex.find_eq hq] at hfind
    exact (Option.some.inj hfind).symm
  · rcases h.wf.active.tip_cases with ⟨hempty, -⟩ | ⟨tip, htip, -, heq⟩
    · rw [hempty] at hp
      simp [CChain.contains, CChain.get] at hp
    · have hmem := s.index.rooted.anc_mem htip ((h.wf.active.contains_iff heq).mp hp)
      exact (h.linked_anc hmem (h.chain p hp).2.1 (.refl p)).2

/-! ## The last common ancestor -/

section common

variable {s : ChainState} {p q : Ptr}

theorem lastCommonLoop_spec (h : Serving s) : ∀ (fuel : Nat) {pa pb : Ptr}, pa ∈ s.index.mapBlockIndex →
    pb ∈ s.index.mapBlockIndex → s.index.nHeight pa = s.index.nHeight pb → s.index.nHeight pa < fuel →
    ∃ f, lastCommonLoop s.index fuel (some pa) (some pb) = some (some f) ∧ s.index.IsAnc f pa ∧ s.index.IsAnc f pb
  | 0, _, _, _, _, _, hfuel => absurd hfuel (Nat.not_lt_zero _)
  | fuel + 1, pa, pb, hpa, hpb, hheight, hfuel => by
    by_cases heq : pa = pb
    · subst heq
      exact ⟨pa, by rw [lastCommonLoop, if_pos rfl], .refl pa, .refl pa⟩
    · have hR := s.index.rooted
      rw [lastCommonLoop, if_neg heq]
      cases hqa : s.index.pprev pa with
      | none =>
        -- both are genesis blocks
        have h0 : s.index.nHeight pa = 0 := hR.root hpa hqa
        cases hqb : s.index.pprev pb with
        | none => exact absurd (h.root pa hpa pb hpb hqa hqb) heq
        | some qb =>
          have hsucc : s.index.nHeight pb = s.index.nHeight qb + 1 := hR.succ hpb hqb
          omega
      | some qa =>
        have hsucc : s.index.nHeight pa = s.index.nHeight qa + 1 := hR.succ hpa hqa
        cases hqb : s.index.pprev pb with
        | none =>
          have h0 : s.index.nHeight pb = 0 := hR.root hpb hqb
          omega
        | some qb =>
          have hsucc' : s.index.nHeight pb = s.index.nHeight qb + 1 := hR.succ hpb hqb
          obtain ⟨f, hf, hfa, hfb⟩ :=
            lastCommonLoop_spec h fuel (hR.mem hpa hqa) (hR.mem hpb hqb) (by omega) (by omega)
          exact ⟨f, hf, .up hqa hfa, .up hqb hfb⟩

theorem lastCommonAncestor_spec (h : Serving s) (hp : p ∈ s.index.mapBlockIndex) (hq : q ∈ s.index.mapBlockIndex) :
    ∃ f, lastCommonAncestor s.index p q = some (some f) ∧ s.index.IsAnc f p ∧ s.index.IsAnc f q := by
  have hR := s.index.rooted
  have hlower {a b : Ptr} (ha : a ∈ s.index.mapBlockIndex) (hlt : s.index.nHeight b < s.index.nHeight a) :
      ∃ a', s.index.getAncestor a (s.index.nHeight b) = some a' ∧ s.index.IsAnc a' a ∧
        s.index.nHeight a' = s.index.nHeight b := by
    obtain ⟨a', hanc, hheight⟩ := hR.exists_at ha (Nat.le_of_lt hlt)
    exact ⟨a', (BlockIndex.getAncestor_some_iff ha).mpr ⟨hanc, hheight⟩, hanc, hheight⟩
  unfold lastCommonAncestor
  rcases Nat.lt_trichotomy (s.index.nHeight p) (s.index.nHeight q) with hlt | heq | hgt
  · obtain ⟨q', hq', hanc, hheight⟩ := hlower hq hlt
    rw [if_neg (Nat.lt_asymm hlt), if_pos hlt, hq']
    obtain ⟨f, hf, hfp, hfq⟩ := lastCommonLoop_spec h (s.index.nHeight p + 1) hp (hR.anc_mem hq hanc) hheight.symm (by omega)
    exact ⟨f, hf, hfp, hfq.trans hanc⟩
  · rw [if_neg (by omega), if_neg (by omega)]
    exact lastCommonLoop_spec h (s.index.nHeight p + 1) hp hq heq (by omega)
  · obtain ⟨p', hp', hanc, hheight⟩ := hlower hp hgt
    rw [if_pos hgt, if_neg (Nat.lt_asymm hgt), hp']
    obtain ⟨f, hf, hfp, hfq⟩ := lastCommonLoop_spec h (s.index.nHeight p + 1) (hR.anc_mem hp hanc) hq hheight (by omega)
    exact ⟨f, hf, hfp.trans hanc, hfq⟩

end common

/-! ## The forward walk -/

/-- The ancestors of an entry at the next `n` heights above `lo`, from the lowest up. -/
def span (t : BlockIndex) (best : Ptr) (lo n : Nat) : List Ptr := ((t.path best).reverse.drop (lo + 1)).take n

section span

variable {t : BlockIndex} {best a : Ptr} {lo n : Nat}

theorem mem_span (hbest : best ∈ t.mapBlockIndex) :
    a ∈ span t best lo n ↔ t.IsAnc a best ∧ lo < t.nHeight a ∧ t.nHeight a ≤ lo + n := by
  have hat (i : Nat) : (t.path best).reverse[i]? = some a ↔ t.IsAnc a best ∧ t.nHeight a = i :=
    t.rooted.getElem?_reverse_path hbest i
  constructor
  · intro ha
    obtain ⟨i, hi⟩ := List.mem_iff_getElem?.mp ha
    rw [span, List.getElem?_take] at hi
    split at hi
    · rw [List.getElem?_drop] at hi
      obtain ⟨hanc, hheight⟩ := (hat _).mp hi
      exact ⟨hanc, by omega, by omega⟩
    · cases hi
  · rintro ⟨hanc, hlo, hhi⟩
    refine List.mem_iff_getElem?.mpr ⟨t.nHeight a - (lo + 1), ?_⟩
    rw [span, List.getElem?_take, if_pos (by omega), List.getElem?_drop]
    exact (hat _).mpr ⟨hanc, by omega⟩

theorem pairwise_span (hbest : best ∈ t.mapBlockIndex) (lo n : Nat) :
    (span t best lo n).Pairwise fun a b => t.nHeight a < t.nHeight b := by
  have hpath : (t.path best).reverse.Pairwise fun a b => t.nHeight a < t.nHeight b :=
    List.pairwise_reverse.mpr (t.rooted.pairwise_path hbest)
  exact (hpath.sublist (List.drop_sublist _ _)).sublist (List.take_sublist _ _)

theorem span_add (t : BlockIndex) (best : Ptr) (lo n m : Nat) :
    span t best lo (n + m) = span t best lo n ++ span t best (lo + n) m := by
  rw [span, List.take_add, List.drop_drop, span, span]
  congr 3
  omega

theorem span_succ (hbest : best ∈ t.mapBlockIndex) (ha : t.IsAnc a best) (hheight : t.nHeight a = lo + n + 1) :
    span t best lo (n + 1) = span t best lo n ++ [a] := by
  rw [span, List.take_add_one, List.getElem?_drop, span]
  have hat : (t.path best).reverse[lo + 1 + n]? = some a :=
    (t.rooted.getElem?_reverse_path hbest _).mpr ⟨ha, show t.nHeight a = _ by omega⟩
  rw [hat]
  rfl

end span

namespace DownloadEnv

variable {env : DownloadEnv} {best : Ptr} {count nWindowEnd : Nat}

theorem fillBack_spec (hbest : best ∈ env.chain.index.mapBlockIndex) : ∀ (n : Nat) {a : Ptr} {lo : Nat},
    env.chain.index.IsAnc a best → env.chain.index.nHeight a = lo + n + 1 →
    env.fillBack n a = some (span env.chain.index best lo (n + 1))
  | 0, a, lo, hanc, hheight => by
    rw [@span_succ _ best a lo 0 hbest hanc hheight]
    simp [fillBack, span]
  | n + 1, a, lo, hanc, hheight => by
    have hmem := env.chain.index.rooted.anc_mem hbest hanc
    cases hq : env.chain.index.pprev a with
    | none =>
      have h0 : env.chain.index.nHeight a = 0 := env.chain.index.rooted.root hmem hq
      omega
    | some q =>
      have hsucc : env.chain.index.nHeight a = env.chain.index.nHeight q + 1 := env.chain.index.rooted.succ hmem hq
      have hrest := fillBack_spec hbest n ((Anc.parent hq).trans hanc) (show env.chain.index.nHeight q = lo + n + 1 by omega)
      rw [fillBack, hq, span_succ hbest hanc hheight]
      simp only [Option.bind_eq_bind, Option.bind_some, hrest]

/-- What the loop has done when it comes to the end of `done`: the missing entries are chosen, and the last common block is one of
the entries that are linked. -/
structure Fetched (env : DownloadEnv) (count : Nat) (st : FetchState) (done : List Ptr) (st' : FetchState) : Prop where
  vBlocks : st'.vBlocks = st.vBlocks ++ done.filter env.missing
  atMost : st'.vBlocks.length ≤ count
  valid : ∀ p ∈ done, (env.chain.status p).isValid BLOCK_VALID_TREE = true
  common : st'.pindexLastCommonBlock = st.pindexLastCommonBlock ∨
    st'.pindexLastCommonBlock ∈ done ∧ (env.chain.status st'.pindexLastCommonBlock).nChainTx ≠ 0

variable {st st' st'' : FetchState} {l done done' : List Ptr} {p : Ptr}

theorem Fetched.nil (h : st.vBlocks.length ≤ count) (hblocks : st'.vBlocks = st.vBlocks)
    (hcommon : st'.pindexLastCommonBlock = st.pindexLastCommonBlock) : Fetched env count st [] st' :=
  ⟨by simp [hblocks], by rw [hblocks]; exact h, fun p hp => (by cases hp), .inl hcommon⟩

theorem Fetched.trans (h : Fetched env count st done st') (h' : Fetched env count st' done' st'') :
    Fetched env count st (done ++ done') st'' := by
  refine ⟨?_, h'.atMost, fun p hp => ?_, ?_⟩
  · rw [h'.vBlocks, h.vBlocks, List.filter_append, List.append_assoc]
  · rcases List.mem_append.mp hp with hp | hp
    · exact h.valid p hp
    · exact h'.valid p hp
  · rcases h'.common with hcommon | ⟨hmem, hlinked⟩
    · rw [hcommon]
      rcases h.common with hcommon | ⟨hmem, hlinked⟩
      · exact .inl hcommon
      · exact .inr ⟨List.mem_append_left _ hmem, hlinked⟩
    · exact .inr ⟨List.mem_append_right _ hmem, hlinked⟩

theorem Fetched.skip (h : st.vBlocks.length ≤ count) (hvalid : (env.chain.status p).isValid BLOCK_VALID_TREE = true)
    (hmissing : env.missing p = false) (hblocks : st'.vBlocks = st.vBlocks)
    (hcommon : st'.pindexLastCommonBlock = st.pindexLastCommonBlock ∨
      st'.pindexLastCommonBlock = p ∧ (env.chain.status p).nChainTx ≠ 0) : Fetched env count st [p] st' := by
  refine ⟨by simp [hblocks, hmissing], by rw [hblocks]; exact h, fun p' hp' => ?_, ?_⟩
  · rw [List.mem_singleton.mp hp']
    exact hvalid
  · rcases hcommon with hcommon | ⟨hcommon, hlinked⟩
    · exact .inl hcommon
    · rw [hcommon]
      exact .inr ⟨List.mem_singleton_self p, hlinked⟩

theorem fetchLoop_spec : ∀ (l : List Ptr) (st : FetchState), st.vBlocks.length < count →
    ∃ done rest, l = done ++ rest ∧ Fetched env count st done (env.fetchLoop count nWindowEnd l st).2 ∧
      ((env.fetchLoop count nWindowEnd l st).1 = false →
        rest = [] ∧ (env.fetchLoop count nWindowEnd l st).2.vBlocks.length < count)
  | [], st, hlen => ⟨[], [], rfl, Fetched.nil (Nat.le_of_lt hlen) rfl rfl, fun _ => ⟨rfl, hlen⟩⟩
  | p :: l, st, hlen => by
    -- what is left to show once one entry is done
    have hnext {st' : FetchState} (hone : Fetched env count st [p] st') (hlen' : st'.vBlocks.length < count) :
        ∃ done rest, p :: l = done ++ rest ∧ Fetched env count st done (env.fetchLoop count nWindowEnd l st').2 ∧
          ((env.fetchLoop count nWindowEnd l st').1 = false →
            rest = [] ∧ (env.fetchLoop count nWindowEnd l st').2.vBlocks.length < count) := by
      obtain ⟨done, rest, rfl, hfetched, hend⟩ := fetchLoop_spec l st' hlen'
      exact ⟨p :: done, rest, rfl, hone.trans hfetched, hend⟩
    have hstop {st' : FetchState} (hblocks : st'.vBlocks = st.vBlocks)
        (hcommon : st'.pindexLastCommonBlock = st.pindexLastCommonBlock) :
        ∃ done rest, p :: l = done ++ rest ∧ Fetched env count st done st' ∧
          (true = false → rest = [] ∧ st'.vBlocks.length < count) :=
      ⟨[], p :: l, rfl, Fetched.nil (Nat.le_of_lt hlen) hblocks hcommon, fun h => (by cases h)⟩
    rw [fetchLoop]
    cases hvalid : (env.chain.status p).isValid BLOCK_VALID_TREE with
    | false => exact hstop rfl rfl
    | true =>
      cases hdata : (env.chain.status p).haveData with
      | true =>
        have hmissing : env.missing p = false := by rw [missing, hdata]; rfl
        simp only [Bool.not_true, Bool.false_eq_true, if_false, if_true]
        by_cases hlinked : (env.chain.status p).nChainTx ≠ 0
        · rw [if_pos hlinked]
          exact hnext (Fetched.skip (Nat.le_of_lt hlen) hvalid hmissing rfl (.inr ⟨rfl, hlinked⟩)) hlen
        · rw [if_neg hlinked]
          exact hnext (Fetched.skip (Nat.le_of_lt hlen) hvalid hmissing rfl (.inl rfl)) hlen
      | false =>
        simp only [Bool.not_true, Bool.false_eq_true, if_false]
        cases hfrom : env.inFlightFrom p with
        | some nodeid =>
          have hmissing : env.missing p = false := by rw [missing, hfrom]; simp
          simp only
          split
          · exact hnext (Fetched.skip (Nat.le_of_lt hlen) hvalid hmissing rfl (.inl rfl)) hlen
          · exact hnext (Fetched.skip (Nat.le_of_lt hlen) hvalid hmissing rfl (.inl rfl)) hlen
        | none =>
          have hmissing : env.missing p = true := by rw [missing, hdata, hfrom]; rfl
          have hlength : (st.vBlocks ++ [p]).length = st.vBlocks.length + 1 := by simp
          have hone : Fetched env count st [p] { st with vBlocks := st.vBlocks ++ [p] } := by
            refine ⟨by simp [hmissing], ?_, fun p' hp' => ?_, .inl rfl⟩
            · simp only [hlength]
              omega
            · rw [List.mem_singleton.mp hp']
              exact hvalid
          simp only
          by_cases hwindow : nWindowEnd < env.chain.index.nHeight p
          · rw [if_pos hwindow]
            split
            · exact hstop rfl rfl
            · exact hstop rfl rfl
          · rw [if_neg hwindow]
            by_cases hfull : (st.vBlocks ++ [p]).length = count
            · rw [if_pos hfull]
              exact ⟨[p], l, rfl, hone, fun h => (by cases h)⟩
            · rw [if_neg hfull]
              refine hnext hone ?_
              simp only [hlength] at hfull ⊢
              omega

theorem nToFetch_bounds (count : Nat) (st : FetchState) {nMaxHeight nHeight : Nat} (h : nHeight < nMaxHeight) :
    1 ≤ nToFetch count nMaxHeight nHeight st ∧ nToFetch count nMaxHeight nHeight st ≤ nMaxHeight - nHeight := by
  unfold nToFetch
  generalize ((count - st.vBlocks.length : Nat) : Int).bmod (2 ^ 32) = nMissing
  omega

theorem walkForward_spec {nMaxHeight : Nat} (hbest : best ∈ env.chain.index.mapBlockIndex)
    (hmax : nMaxHeight ≤ env.chain.index.nHeight best) : ∀ (fuel : Nat) (walk : Ptr) (st : FetchState),
    nMaxHeight - env.chain.index.nHeight walk ≤ fuel → st.vBlocks.length < count →
    ∃ st' done rest, env.walkForward best count nWindowEnd nMaxHeight fuel walk st = some st' ∧
      span env.chain.index best (env.chain.index.nHeight walk) (nMaxHeight - env.chain.index.nHeight walk) = done ++ rest ∧
      Fetched env count st done st'
  | 0, walk, st, hfuel, hlen => by
    refine ⟨st, [], _, ?_, rfl, Fetched.nil (Nat.le_of_lt hlen) rfl rfl⟩
    rw [walkForward, if_neg (by omega)]
  | fuel + 1, walk, st, hfuel, hlen => by
    rw [walkForward]
    by_cases hlt : env.chain.index.nHeight walk < nMaxHeight
    · rw [if_pos hlt]
      have hn := nToFetch_bounds count st hlt
      generalize nToFetch count nMaxHeight (env.chain.index.nHeight walk) st = n at hn
      obtain ⟨a, hanc, hheight⟩ := env.chain.index.rooted.exists_at hbest
        (show env.chain.index.nHeight walk + n ≤ env.chain.index.nHeight best by omega)
      have hget : env.chain.index.getAncestor best (env.chain.index.nHeight walk + n) = some a :=
        (BlockIndex.getAncestor_some_iff hbest).mpr ⟨hanc, hheight⟩
      have hfill := @fillBack_spec env best hbest (n - 1) a (env.chain.index.nHeight walk) hanc
        (show env.chain.index.nHeight a = env.chain.index.nHeight walk + (n - 1) + 1 by
          have hheight' : env.chain.index.nHeight a = env.chain.index.nHeight walk + n := hheight
          omega)
      rw [Nat.sub_add_cancel hn.1] at hfill
      simp only [hget, hfill, Option.bind_eq_bind, Option.bind_some]
      obtain ⟨done, rest, hspan, hfetched, hend⟩ := @fetchLoop_spec env count nWindowEnd
        (span env.chain.index best (env.chain.index.nHeight walk) n) st hlen
      -- the rest of the way is above the chunk
      have hsplit : span env.chain.index best (env.chain.index.nHeight walk) (nMaxHeight - env.chain.index.nHeight walk) =
          done ++ (rest ++ span env.chain.index best (env.chain.index.nHeight a) (nMaxHeight - env.chain.index.nHeight a)) := by
        have hheight' : env.chain.index.nHeight a = env.chain.index.nHeight walk + n := hheight
        rw [← List.append_assoc, ← hspan, hheight', ← span_add]
        congr 1
        omega
      generalize env.fetchLoop count nWindowEnd (span env.chain.index best (env.chain.index.nHeight walk) n) st = res
        at hfetched hend
      obtain ⟨fReturn, st'⟩ := res
      cases fReturn with
      | true => exact ⟨st', done, _, rfl, hsplit, hfetched⟩
      | false =>
        obtain ⟨rfl, hlen'⟩ := hend rfl
        have hheight' : env.chain.index.nHeight a = env.chain.index.nHeight walk + n := hheight
        obtain ⟨st'', done', rest', hwalk, hspan', hfetched'⟩ := walkForward_spec hbest hmax fuel a st' (by omega) hlen'
        refine ⟨st'', done ++ done', rest', hwalk, ?_, hfetched.trans hfetched'⟩
        rw [hsplit, List.nil_append, hspan', List.append_assoc]
    · rw [if_neg hlt]
      exact ⟨st, [], _, rfl, rfl, Fetched.nil (Nat.le_of_lt hlen) rfl rfl⟩

end DownloadEnv

/-! ## The walk back -/

/-- The last entries of a list, `count` at most. -/
def lastOf (count : Nat) (l : List Ptr) : List Ptr := l.drop (l.length - count)

theorem lastOf_of_le {count : Nat} {l : List Ptr} (h : l.length ≤ count) : lastOf count l = l := by
  rw [lastOf, Nat.sub_eq_zero_of_le h, List.drop_zero]

theorem lastOf_cons {count : Nat} {a : Ptr} {l : List Ptr} (h : count ≤ l.length) : lastOf count (a :: l) = lastOf count l := by
  rw [lastOf, lastOf, List.length_cons, Nat.succ_sub h, List.drop_succ_cons]

theorem pairwise_lastOf {count : Nat} {l : List Ptr} {R : Ptr → Ptr → Prop} (h : l.Pairwise R) : (lastOf count l).Pairwise R :=
  h.sublist (List.drop_sublist _ _)

theorem length_lastOf (count : Nat) (l : List Ptr) : (lastOf count l).length = min count l.length := by
  rw [lastOf, List.length_drop]
  omega

namespace DownloadEnv

variable (env : DownloadEnv)

/-- The walk goes on at an entry. -/
def passes (max_height : Int) (p : Ptr) : Bool :=
  decide (max_height < env.chain.index.nHeight p) ||
    (!env.chain.chainActive.contains env.chain.index p && (env.chain.status p).isValid BLOCK_VALID_TREE)

/-- The missing entries that the walk comes to. -/
def reached (max_height : Int) (l : List Ptr) : List Ptr :=
  (l.takeWhile (env.passes max_height)).filter fun p => !decide (max_height < env.chain.index.nHeight p) && env.missing p

variable {env}

theorem walkBack_eq {count : Nat} (hcount : 0 < count) (max_height : Int) : ∀ (l to_fetch : List Ptr),
    to_fetch.length ≤ count →
    env.walkBack count max_height l to_fetch = lastOf count (to_fetch ++ env.reached max_height l)
  | [], to_fetch, hlen => by
    simp only [walkBack, reached, List.takeWhile_nil, List.filter_nil, List.append_nil]
    exact (lastOf_of_le hlen).symm
  | p :: l, to_fetch, hlen => by
    have hreached : env.reached max_height (p :: l) = if env.passes max_height p = true then
        (if (!decide (max_height < env.chain.index.nHeight p) && env.missing p) = true then p :: env.reached max_height l
          else env.reached max_height l) else [] := by
      rw [reached, List.takeWhile_cons]
      by_cases hpass : env.passes max_height p = true
      · rw [if_pos hpass, if_pos hpass, List.filter_cons]
        rfl
      · rw [if_neg hpass, if_neg hpass, List.filter_nil]
    rw [walkBack, hreached, passes]
    by_cases hskip : max_height < env.chain.index.nHeight p
    · have hrest := walkBack_eq hcount max_height l to_fetch hlen
      simp [hskip, hrest]
    · cases hactive : env.chain.chainActive.contains env.chain.index p with
      | true =>
        have hlast := lastOf_of_le hlen
        simp [hskip, hlast]
      | false =>
        cases hvalid : (env.chain.status p).isValid BLOCK_VALID_TREE with
        | false =>
          have hlast := lastOf_of_le hlen
          simp [hskip, hlast]
        | true =>
          cases hmissing : env.missing p with
          | false =>
            have hrest := walkBack_eq hcount max_height l to_fetch hlen
            simp [hskip, hrest]
          | true =>
            simp only [hskip, if_false, Bool.false_eq_true, Bool.not_true, if_true, decide_false, Bool.false_or, Bool.not_false,
              Bool.and_self]
            by_cases hfull : count ≤ to_fetch.length
            · cases to_fetch with
              | nil =>
                rw [List.length_nil] at hfull
                omega
              | cons first to_fetch =>
                rw [List.length_cons] at hlen hfull
                rw [if_pos (by rw [List.length_cons]; exact hfull), List.drop_succ_cons, List.drop_zero,
                  walkBack_eq hcount max_height l _ (by rw [List.length_append, List.length_singleton]; exact hlen),
                  List.append_assoc, List.singleton_append, List.cons_append, lastOf_cons]
                rw [List.length_append, List.length_cons]
                omega
            · rw [if_neg hfull, walkBack_eq hcount max_height l _ (by rw [List.length_append, List.length_singleton]; omega),
                List.append_assoc, List.singleton_append]

end DownloadEnv

/-! ## Right requests -/

namespace DownloadNode

variable (n : DownloadNode)

/-- The blocks of the peer, brought up to date. -/
def known : PeerBlocks := n.state.processBlockAvailability n.chain

/-- The parallel initial download: nothing is known about the peer. -/
def Parallel : Prop := n.known.pindexBestKnownBlock = none ∧ n.ibd.isInitialBlockDownload n.chain = some true

/-- A right request for at most `count` blocks. -/
structure Right (count : Nat) (r : Download) : Prop where
  atMost : r.vBlocks.length ≤ count
  nodup : r.vBlocks.Nodup
  missing : ∀ p ∈ r.vBlocks, n.missing p = true
  branch : ∀ p ∈ r.vBlocks, (∃ best, n.known.pindexBestKnownBlock = some best ∧ n.chain.index.IsAnc p best) ∨
    (n.Parallel ∧ n.chain.index.IsAnc p n.pindexBestHeader)
  increasing : r.vBlocks.Pairwise fun p q => n.chain.index.nHeight p < n.chain.index.nHeight q
  /-- The missing entries below a chosen one are chosen too. -/
  oldest : ∀ p ∈ r.vBlocks, ∀ q, n.chain.index.IsAnc q p → n.missing q = true →
    (n.chain.status q).isValid BLOCK_VALID_TREE = true → q ∈ r.vBlocks
  /-- The last common block has the data of all its ancestors. -/
  common : r.state.Ok n.chain

variable {n} {count : Nat}

theorem known_ok (n : DownloadNode) : n.known.Ok n.chain := n.ok.processBlockAvailability

theorem not_missing_of_data {env : DownloadEnv} {p : Ptr} (h : (env.chain.status p).haveData = true) : env.missing p = false := by
  rw [DownloadEnv.missing, h]
  rfl

theorem Right.nil {r : Download} (hblocks : r.vBlocks = [])
    (hcommon : r.state.Ok n.chain) : n.Right count r := by
  refine ⟨?_, ?_, ?_, ?_, ?_, ?_, hcommon⟩ <;> rw [hblocks] <;> simp

theorem exists_bootstrap (n : DownloadNode) (best : Ptr) :
    ∃ p, n.bootstrap n.known best = some p ∧ p ∈ n.chain.index.mapBlockIndex ∧ n.chain.AllData p := by
  have hR := n.chain.index.rooted
  rw [DownloadEnv.bootstrap]
  cases hcommon : n.known.pindexLastCommonBlock with
  | some p => exact ⟨p, rfl, n.known_ok.common p hcommon⟩
  | none =>
    obtain ⟨htip, hchain⟩ := n.serving.active.of_tip n.tip_eq
    obtain ⟨p, hanc, hheight⟩ := hR.exists_at htip
      (show min (n.chain.index.nHeight best) (n.chain.index.nHeight n.tip) ≤ n.chain.index.nHeight n.tip from Nat.min_le_right _ _)
    refine ⟨p, ?_, hR.anc_mem htip hanc, fun a ha => ?_⟩
    · rw [hchain, CChain.length_ofTip htip, Nat.add_sub_cancel]
      exact (CChain.get_ofTip htip _).mpr ⟨hanc, hheight⟩
    · exact n.serving.chain a ((n.serving.active.contains_iff n.tip_eq).mpr (ha.trans hanc))

theorem known_common {p : Ptr} (hp : p ∈ n.chain.index.mapBlockIndex) (hdata : n.chain.AllData p) :
    ({ n.known with pindexLastCommonBlock := some p } : PeerBlocks).Ok n.chain :=
  ⟨n.known_ok.best, fun p' hp' => by cases hp'; exact ⟨hp, hdata⟩⟩

theorem above_of_missing {fork best q : Ptr} (hbest : best ∈ n.chain.index.mapBlockIndex) (hfork : n.chain.index.IsAnc fork best)
    (hdata : n.chain.AllData fork) (hq : n.chain.index.IsAnc q best) (hmissing : n.missing q = true) :
    n.chain.index.nHeight fork < n.chain.index.nHeight q := by
  have hR := n.chain.index.rooted
  by_contra hle
  have hqfork : n.chain.index.IsAnc q fork := by
    rcases hq.total hfork with hqf | hfq
    · exact hqf
    · rw [hR.anc_eq (hR.anc_mem hbest hq) hfq (Nat.le_of_not_lt hle)]
      exact .refl q
  rw [not_missing_of_data (hdata q hqfork)] at hmissing
  cases hmissing

theorem findSuccessors_right (hcount : 0 < count) {best : Ptr} (hbest : n.known.pindexBestKnownBlock = some best) :
    ∃ r, n.findSuccessors count n.known best = some r ∧ n.Right count r := by
  have hR := n.chain.index.rooted
  have hmem := n.known_ok.best best hbest
  obtain ⟨start, hstart, hstartmem, hstartdata⟩ := n.exists_bootstrap best
  obtain ⟨fork, hfork, hforkstart, hforkbest⟩ := lastCommonAncestor_spec n.serving hstartmem hmem
  have hforkmem := hR.anc_mem hstartmem hforkstart
  have hforkdata : n.chain.AllData fork := fun a ha => hstartdata a (ha.trans hforkstart)
  unfold DownloadEnv.findSuccessors
  rw [hstart]
  simp only [Option.bind_eq_bind, Option.bind_some, hfork, Option.some.injEq]
  by_cases heq : fork = best
  · rw [if_pos heq]
    exact ⟨_, rfl, Right.nil rfl (known_common hforkmem hforkdata)⟩
  · rw [if_neg heq]
    generalize hend : n.chain.index.nHeight fork + BLOCK_DOWNLOAD_WINDOW = nWindowEnd
    obtain ⟨st, done, rest, hwalk, hspan, hfetched⟩ := @DownloadEnv.walkForward_spec n.toDownloadEnv best count nWindowEnd
      (min (n.chain.index.nHeight best) (nWindowEnd + 1)) hmem (Nat.min_le_left _ _)
      (min (n.chain.index.nHeight best) (nWindowEnd + 1) - n.chain.index.nHeight fork) fork ⟨[], fork, -1, -1⟩ le_rfl hcount
    rw [hwalk]
    refine ⟨_, rfl, ?_⟩
    have hblocks : st.vBlocks = done.filter n.missing := hfetched.vBlocks
    have hdone {p : Ptr} (hp : p ∈ done) : n.chain.index.IsAnc p best ∧ n.chain.index.nHeight fork < n.chain.index.nHeight p ∧
        n.chain.index.nHeight p ≤ n.chain.index.nHeight fork +
          (min (n.chain.index.nHeight best) (nWindowEnd + 1) - n.chain.index.nHeight fork) := by
      rw [← mem_span hmem, hspan]
      exact List.mem_append_left _ hp
    have hascending := pairwise_span hmem (n.chain.index.nHeight fork)
      (min (n.chain.index.nHeight best) (nWindowEnd + 1) - n.chain.index.nHeight fork)
    rw [hspan] at hascending
    have hsorted : st.vBlocks.Pairwise fun p q => n.chain.index.nHeight p < n.chain.index.nHeight q := by
      rw [hblocks]
      exact (List.pairwise_append.mp hascending).1.sublist List.filter_sublist
    refine ⟨hfetched.atMost, ?_, fun p hp => ?_, fun p hp => ?_, hsorted, fun p hp q hqp hmissing _ => ?_, ?_⟩
    · exact hsorted.imp fun hlt heq => absurd (congrArg _ heq) (Nat.ne_of_lt hlt)
    · rw [hblocks] at hp
      exact (List.mem_filter.mp hp).2
    · rw [hblocks] at hp
      exact .inl ⟨best, hbest, (hdone (List.mem_filter.mp hp).1).1⟩
    · rw [hblocks] at hp
      have hp' := (List.mem_filter.mp hp).1
      obtain ⟨hpbest, -, hphigh⟩ := hdone hp'
      have hqbest := hqp.trans hpbest
      have hqle : n.chain.index.nHeight q ≤ n.chain.index.nHeight p := hR.anc_le (hR.anc_mem hmem hpbest) hqp
      have hqlow := above_of_missing hmem hforkbest hforkdata hqbest hmissing
      have hq : q ∈ done ++ rest := by
        rw [← hspan]
        exact (mem_span hmem).mpr ⟨hqbest, hqlow, hqle.trans hphigh⟩
      show q ∈ st.vBlocks
      rw [hblocks]
      rcases List.mem_append.mp hq with hq | hq
      · exact List.mem_filter.mpr ⟨hq, hmissing⟩
      · have hlt := (List.pairwise_append.mp hascending).2.2 p hp' q hq
        omega
    · rcases hfetched.common with hkept | ⟨hlinkedmem, hlinked⟩
      · rw [hkept]
        exact known_common hforkmem hforkdata
      · have hlinkedmem := hR.anc_mem hmem (hdone hlinkedmem).1
        exact known_common hlinkedmem (n.serving.linked _ hlinkedmem hlinked)

variable (n) in
/-- The walk back from the best header comes to a missing entry: it is in the range of the parallel download, and no entry in this
range is invalid from there up. -/
structure Reached (p : Ptr) : Prop where
  anc : n.chain.index.IsAnc p n.pindexBestHeader
  height : n.chain.index.nHeight p ≤ n.maxHeight n.pindexBestHeader n.tip
  missing : n.missing p = true
  valid : ∀ q, n.chain.index.IsAnc p q → n.chain.index.IsAnc q n.pindexBestHeader →
    n.chain.index.nHeight q ≤ n.maxHeight n.pindexBestHeader n.tip → (n.chain.status q).isValid BLOCK_VALID_TREE = true

theorem mem_reached {p : Ptr} : p ∈ n.reached (n.maxHeight n.pindexBestHeader n.tip) (n.chain.index.path n.pindexBestHeader) ↔
    n.Reached p := by
  rw [DownloadEnv.reached, List.mem_filter, BlockIndex.path, n.chain.index.rooted.mem_takeWhile_path n.header_mem]
  simp only [Bool.and_eq_true, Bool.not_eq_true', decide_eq_false_iff_not, not_lt]
  constructor
  · rintro ⟨⟨hanc, hpass⟩, hheight, hmissing⟩
    refine ⟨hanc, hheight, hmissing, fun q hpq hq hqheight => ?_⟩
    have hpassq := hpass q hpq hq
    rw [DownloadEnv.passes, Bool.or_eq_true, Bool.and_eq_true, decide_eq_true_eq] at hpassq
    rcases hpassq with hhigh | ⟨-, hvalid⟩
    · omega
    · exact hvalid
  · rintro ⟨hanc, hheight, hmissing, hvalid⟩
    refine ⟨⟨hanc, fun q hpq hq => ?_⟩, hheight, hmissing⟩
    rw [DownloadEnv.passes, Bool.or_eq_true, Bool.and_eq_true, decide_eq_true_eq]
    by_cases hhigh : n.maxHeight n.pindexBestHeader n.tip < n.chain.index.nHeight q
    · exact .inl hhigh
    · refine .inr ⟨?_, hvalid q hpq hq (by omega)⟩
      -- the active chain has data
      cases hactive : n.chain.chainActive.contains n.chain.index q with
      | false => rfl
      | true =>
        have hp := n.serving.chain p ((n.serving.active.contains_iff n.tip_eq).mpr
          (hpq.trans ((n.serving.active.contains_iff n.tip_eq).mp hactive)))
        rw [not_missing_of_data hp] at hmissing
        cases hmissing

/-- The request of the parallel download. -/
def parallelBlocks (n : DownloadNode) (count : Nat) : List Ptr :=
  lastOf count (n.reached (n.maxHeight n.pindexBestHeader n.tip) (n.chain.index.path n.pindexBestHeader))

theorem reached_of_mem {p : Ptr} (hp : p ∈ n.parallelBlocks count) : n.Reached p := mem_reached.mp (List.mem_of_mem_drop hp)

theorem pairwise_reached (n : DownloadNode) :
    (n.reached (n.maxHeight n.pindexBestHeader n.tip) (n.chain.index.path n.pindexBestHeader)).Pairwise
      fun p q => n.chain.index.nHeight q < n.chain.index.nHeight p :=
  ((n.chain.index.rooted.pairwise_path n.header_mem).sublist (List.takeWhile_sublist _)).sublist List.filter_sublist

theorem mem_parallelBlocks {p q : Ptr} (hp : p ∈ n.parallelBlocks count) (hq : n.Reached q)
    (hle : n.chain.index.nHeight q ≤ n.chain.index.nHeight p) : q ∈ n.parallelBlocks count := by
  have hq' := mem_reached.mpr hq
  have hdown := n.pairwise_reached
  unfold parallelBlocks lastOf at hp ⊢
  generalize n.reached (n.maxHeight n.pindexBestHeader n.tip) (n.chain.index.path n.pindexBestHeader) = l at hp hq' hdown ⊢
  rw [← List.take_append_drop (l.length - count) l] at hq' hdown
  rcases List.mem_append.mp hq' with hq' | hq'
  · have hlt := (List.pairwise_append.mp hdown).2.2 q hq' p hp
    omega
  · exact hq'

variable (n) in
/-- There is at most one block to ask for in the parallel download, and none below an invalid entry. -/
structure Fits (count : Nat) : Prop where
  one : count = 1 ∨ ∀ p q, n.Reached p → n.Reached q → p = q
  below : ∀ p q, n.Reached p → n.chain.index.IsAnc q p → n.missing q = true →
    (n.chain.status q).isValid BLOCK_VALID_TREE = true → n.Reached q

theorem pairwise_down_up {t : BlockIndex} {l : List Ptr} (hdown : l.Pairwise fun p q => t.nHeight q < t.nHeight p) :
    (l.Pairwise fun p q => t.nHeight p < t.nHeight q) ↔ l.length ≤ 1 := by
  constructor
  · intro hup
    match l with
    | [] => exact Nat.zero_le _
    | [_] => exact le_rfl
    | p :: q :: _ =>
      have hlt := List.rel_of_pairwise_cons hup List.mem_cons_self
      have hgt := List.rel_of_pairwise_cons hdown List.mem_cons_self
      omega
  · intro hlen
    match l with
    | [] => exact List.Pairwise.nil
    | [p] => exact List.pairwise_singleton _ p
    | p :: q :: l =>
      rw [List.length_cons, List.length_cons] at hlen
      omega

theorem increasing_parallelBlocks (hcount : 0 < count) :
    ((n.parallelBlocks count).Pairwise fun p q => n.chain.index.nHeight p < n.chain.index.nHeight q) ↔
      (count = 1 ∨ ∀ p q, n.Reached p → n.Reached q → p = q) := by
  have hdown := n.pairwise_reached
  have hsingle : (∀ p q, n.Reached p → n.Reached q → p = q) ↔
      (n.reached (n.maxHeight n.pindexBestHeader n.tip) (n.chain.index.path n.pindexBestHeader)).length ≤ 1 := by
    constructor
    · intro hone
      refine (pairwise_down_up hdown).mp (hdown.imp_of_mem fun {p q} hp hq hlt => ?_)
      rw [hone p q (mem_reached.mp hp) (mem_reached.mp hq)] at hlt
      exact absurd hlt (Nat.lt_irrefl _)
    · intro hlen p q hp hq
      have hp := mem_reached.mpr hp
      have hq := mem_reached.mpr hq
      match hreached : n.reached (n.maxHeight n.pindexBestHeader n.tip) (n.chain.index.path n.pindexBestHeader) with
      | [] =>
        rw [hreached] at hp
        cases hp
      | [a] =>
        rw [hreached, List.mem_singleton] at hp hq
        rw [hp, hq]
      | a :: b :: l =>
        rw [hreached, List.length_cons, List.length_cons] at hlen
        omega
  rw [hsingle, parallelBlocks, pairwise_down_up (pairwise_lastOf hdown), length_lastOf]
  omega

theorem parallel_right_iff (hcount : 0 < count) (hparallel : n.Parallel) {r : Download}
    (hblocks : r.vBlocks = n.parallelBlocks count) (hcommon : r.state.Ok n.chain) :
    n.Right count r ↔ n.Fits count := by
  have hR := n.chain.index.rooted
  have hdown := @pairwise_lastOf count _ _ n.pairwise_reached
  constructor
  · intro hright
    have hincreasing := hright.increasing
    have holdest := hright.oldest
    rw [hblocks] at hincreasing holdest
    refine ⟨(increasing_parallelBlocks hcount).mp hincreasing, fun p q hp hqp hmissing hvalid => ?_⟩
    have hpos : 0 < (n.parallelBlocks count).length := by
      have hne := List.length_pos_of_mem (mem_reached.mpr hp)
      rw [parallelBlocks, length_lastOf]
      omega
    obtain ⟨c, hc⟩ := List.exists_mem_of_length_pos hpos
    have hcr := reached_of_mem hc
    rcases (hqp.trans hp.anc).total hcr.anc with hqc | hcq
    · exact reached_of_mem (holdest c hc q hqc hmissing hvalid)
    · have hle : n.chain.index.nHeight q ≤ n.chain.index.nHeight p := hR.anc_le (hR.anc_mem n.header_mem hp.anc) hqp
      have hheight := hp.height
      exact ⟨hqp.trans hp.anc, by omega, hmissing, fun a hqa => hcr.valid a (hcq.trans hqa)⟩
  · intro hfits
    refine ⟨?_, ?_, fun p hp => ?_, fun p hp => ?_, ?_, fun p hp q hqp hmissing hvalid => ?_, hcommon⟩
    · rw [hblocks, parallelBlocks, length_lastOf]
      exact Nat.min_le_left _ _
    · rw [hblocks]
      exact hdown.imp fun hlt heq => absurd (congrArg _ heq) (Nat.ne_of_gt hlt)
    · rw [hblocks] at hp
      exact (reached_of_mem hp).missing
    · rw [hblocks] at hp
      exact .inr ⟨hparallel, (reached_of_mem hp).anc⟩
    · rw [hblocks]
      exact (increasing_parallelBlocks hcount).mpr hfits.one
    · rw [hblocks] at hp ⊢
      have hpr := reached_of_mem hp
      exact mem_parallelBlocks hp (hfits.below p q hpr hqp hmissing hvalid)
        (hR.anc_le (hR.anc_mem n.header_mem hpr.anc) hqp)

theorem find_cases (n : DownloadNode) (hcount : 0 < count) : ∃ r, n.findNextBlocksToDownload count n.state = some r ∧
    r.state.Ok n.chain ∧
    ((n.Parallel ∧ r.vBlocks = n.parallelBlocks count) ∨ (¬ n.Parallel ∧ n.Right count r)) := by
  have hcommon := n.known_ok
  rw [DownloadEnv.findNextBlocksToDownload, if_neg (Nat.pos_iff_ne_zero.mp hcount)]
  have hknown : n.state.processBlockAvailability n.chain = n.known := rfl
  rw [hknown]
  cases hbest : n.known.pindexBestKnownBlock with
  | some best =>
    have hnot : ¬ n.Parallel := by
      rintro ⟨hnone, -⟩
      rw [hbest] at hnone
      cases hnone
    simp only [n.tip_eq, Option.bind_eq_bind, Option.bind_some, hbest]
    split
    · exact ⟨_, rfl, hcommon, .inr ⟨hnot, Right.nil rfl hcommon⟩⟩
    · obtain ⟨r, hr, hright⟩ := findSuccessors_right hcount hbest
      exact ⟨r, hr, hright.common, .inr ⟨hnot, hright⟩⟩
  | none =>
    have hinitial : ∃ fInitial, n.ibd.isInitialBlockDownload n.chain = some fInitial := by
      unfold InitialDownload.isInitialBlockDownload
      simp only [n.header_eq, Option.bind_eq_bind, Option.bind_some]
      split_ifs <;> exact ⟨_, rfl⟩
    obtain ⟨fInitial, hinitial⟩ := hinitial
    simp only [hbest, hinitial, n.header_eq, Option.bind_eq_bind, Option.bind_some]
    cases fInitial with
    | true =>
      have hwalk := @DownloadEnv.walkBack_eq n.toDownloadEnv count hcount (n.maxHeight n.pindexBestHeader n.tip)
        (n.chain.index.path n.pindexBestHeader) [] (Nat.zero_le _)
      simp only [n.tip_eq, Option.bind_some]
      exact ⟨_, rfl, hcommon, .inl ⟨⟨hbest, hinitial⟩, hwalk⟩⟩
    | false =>
      refine ⟨_, rfl, hcommon, .inr ⟨?_, Right.nil rfl hcommon⟩⟩
      rintro ⟨-, htrue⟩
      rw [hinitial] at htrue
      cases htrue

/-- `FindNextBlocksToDownload` follows no null pointer, and its request is right unless, in the parallel initial download, there is
more than one block to ask for or one below an invalid entry. -/
theorem find_right_iff (n : DownloadNode) (count : Nat) (hcount : 0 < count) :
    (∃ r, n.findNextBlocksToDownload count n.state = some r ∧ n.Right count r) ↔ (n.Parallel → n.Fits count) := by
  obtain ⟨r, hr, hcommon, hcases⟩ := n.find_cases hcount
  rw [hr]
  rcases hcases with ⟨hparallel, hblocks⟩ | ⟨hnot, hright⟩
  · have hiff := parallel_right_iff hcount hparallel hblocks hcommon
    constructor
    · rintro ⟨r', hr', hright⟩ -
      cases hr'
      exact hiff.mp hright
    · intro hfits
      exact ⟨r, rfl, hiff.mpr (hfits hparallel)⟩
  · exact ⟨fun _ hparallel => absurd hparallel hnot, fun _ => ⟨r, rfl, hright⟩⟩

/-- The states of a peer, while the chain goes on, blocks are announced and requests are made. -/
inductive Served : ChainState → PeerBlocks → Prop where
  | new (s : ChainState) : Served s .new
  | extend {s s' : ChainState} {state : PeerBlocks} : Served s state → PeerBlocks.Extends s s' → Served s' state
  | process {s : ChainState} {state : PeerBlocks} : Served s state → Served s (state.processBlockAvailability s)
  | update {s : ChainState} {state : PeerBlocks} (hash : Uint256) : Served s state → Served s (state.updateBlockAvailability s hash)
  | find {env : DownloadEnv} {state : PeerBlocks} {tip pindexBestHeader : Ptr} {r : Download} (count : Nat) :
      Served env.chain state → Serving env.chain → env.chain.tip = some tip →
      env.chain.pindexBestHeader = some pindexBestHeader → pindexBestHeader ∈ env.chain.index.mapBlockIndex →
      env.findNextBlocksToDownload count state = some r → Served env.chain r.state

/-- In every state of a peer its best known block is in the index, and the last common block has the data of all its ancestors. -/
theorem served_lastCommon {s : ChainState} {state : PeerBlocks} (h : Served s state) : state.Ok s := by
  induction h with
  | new s => exact .new
  | extend _ hext ih => exact ih.extend hext
  | process _ ih => exact ih.processBlockAvailability
  | update hash _ ih => exact ih.updateBlockAvailability hash
  | @find env state tip pindexBestHeader r count _ hserving htip hheader hmem hfind ih =>
    rcases Nat.eq_zero_or_pos count with rfl | hcount
    · cases hfind
      exact ih
    · obtain ⟨r', hr', hok, -⟩ := find_cases ⟨env, state, tip, pindexBestHeader, hserving, htip, hheader, hmem, ih⟩ hcount
      rw [hfind] at hr'
      cases hr'
      exact hok

/-! ## A chain of headers -/

/-- The parent in a chain in which the entry at the address `p` has height `p`. -/
def parentBelow (p : Nat) : Option Nat := if p = 0 then none else some (p - 1)

theorem parentBelow_some {p q : Nat} (h : parentBelow p = some q) : p = q + 1 := by
  unfold parentBelow at h
  split at h
  · cases h
  · cases h
    omega

theorem anc_parentBelow {a p : Nat} (h : a ≤ p) : Anc parentBelow a p := by
  induction p with
  | zero =>
    obtain rfl : a = 0 := Nat.le_zero.mp h
    exact .refl 0
  | succ p ih =>
    rcases Nat.lt_or_eq_of_le h with hlt | rfl
    · exact .up (by simp [parentBelow]) (ih (Nat.le_of_lt_succ hlt))
    · exact .refl _

/-- The index of a chain of `n` headers. -/
def headerChain (n : Nat) (hn : n ≤ 2 ^ 256) : BlockIndex where
  entry := fun p => ⟨.ofNat 256 p, parentBelow p, some (getSkipHeight p), p, .ofNat 256 (p + 1), 0, 0, 0, 0, 0⟩
  mapBlockIndex := List.range n
  nodup := List.nodup_range
  hash_inj := by
    intro p hp q hq h
    have hp := List.mem_range.mp hp
    have hq := List.mem_range.mp hq
    have hnat : (BitVec.ofNat 256 p).toNat = (BitVec.ofNat 256 q).toNat := congrArg BitVec.toNat h
    rw [BitVec.toNat_ofNat, BitVec.toNat_ofNat, Nat.mod_eq_of_lt (by omega), Nat.mod_eq_of_lt (by omega)] at hnat
    exact hnat
  rooted_entry := by
    refine ⟨fun {p q : Nat} hp hpq => ?_, fun {p q} _ hpq => parentBelow_some hpq, fun {p} _ hp => ?_⟩
    · have hsucc : p = q + 1 := parentBelow_some hpq
      have hp : p < n := List.mem_range.mp hp
      exact List.mem_range.mpr (by omega)
    · have hnone : parentBelow p = none := hp
      unfold parentBelow at hnone
      split at hnone
      · assumption
      · cases hnone
  skip := by
    intro (p : Nat) _ (q : Nat) hpq
    have hsucc : p = q + 1 := parentBelow_some hpq
    have hlt : getSkipHeight p < p := getSkipHeight_lt (show 0 < p by omega)
    exact ⟨getSkipHeight p, rfl, anc_parentBelow (show getSkipHeight p ≤ q by omega), rfl⟩

theorem mem_headerChain {n : Nat} (hn : n ≤ 2 ^ 256) {p : Nat} : p ∈ (headerChain n hn).mapBlockIndex ↔ p < n := List.mem_range

/-- A chain of headers, of which only the genesis block has data. -/
def headerChainState : ChainState where
  index := headerChain 515 (by omega)
  status := fun p => ⟨5, decide (p = 0), false, false, false, 1, if p = 0 then 1 else 0, 0⟩
  chainActive := CChain.ofTip (headerChain 515 (by omega)) 0
  setBlockIndexCandidates := [0]
  mapBlocksUnlinked := []
  nBlockSequenceId := 1
  pindexBestInvalid := none
  pindexBestHeader := some 514
  nCalls := 0

theorem genesis_mem : 0 ∈ headerChainState.index.mapBlockIndex := (mem_headerChain (by omega)).mpr (by omega)

theorem headerChain_pprev_zero {p : Ptr} (h : headerChainState.index.pprev p = none) : p = 0 := by
  have hnone : parentBelow p = none := h
  unfold parentBelow at hnone
  split at hnone
  · assumption
  · cases hnone

theorem isAnc_zero {a : Ptr} (h : headerChainState.index.IsAnc a 0) : a = 0 := by
  rcases anc_iff.mp h with heq | ⟨q, hq, -⟩
  · exact heq
  · cases hq

/-- A peer of which nothing is known, in the initial download. -/
def headerChainNode : DownloadNode where
  chain := headerChainState
  ibd := ⟨false, false, false, 1000, false, 86400, 0⟩
  mapBlocksInFlight := ∅
  nodeid := 1
  nStartingHeight := 1000
  state := .new
  tip := 0
  pindexBestHeader := 514
  serving := by
    refine ⟨.inr ⟨0, genesis_mem, rfl⟩, fun p _ q _ hp hq => ?_, fun p _ hlinked a ha => ?_, fun p hp => ?_⟩
    · rw [headerChain_pprev_zero hp, headerChain_pprev_zero hq]
    · have hp : p = 0 := by
        by_contra hne
        exact hlinked (if_neg hne)
      subst hp
      rw [isAnc_zero ha]
      rfl
    · rw [isAnc_zero ((CChain.contains_iff genesis_mem).mp hp)]
      rfl
  tip_eq := CChain.tip_ofTip genesis_mem
  header_eq := rfl
  header_mem := (mem_headerChain (by omega)).mpr (by omega)
  ok := .new

/-- A peer that has announced the third block. -/
def announcedBlocks : PeerBlocks := PeerBlocks.new.updateBlockAvailability headerChainState 3

theorem find_announcedBlocks : (headerChainNode.findNextBlocksToDownload 16 announcedBlocks).map (fun r => (r.vBlocks, r.state)) =
    some ([1, 2, 3], ⟨0, some 3, some 0⟩) := by decide +kernel

theorem served_lastCommon_headerChain : (⟨0, some 3, some 0⟩ : PeerBlocks).Ok headerChainState := by
  obtain ⟨r, hr, hblocks⟩ := Option.map_eq_some_iff.mp find_announcedBlocks
  have hserved : Served headerChainState r.state := .find 16 (.update 3 (.new headerChainState)) headerChainNode.serving
    headerChainNode.tip_eq headerChainNode.header_eq headerChainNode.header_mem hr
  have hstate : r.state = ⟨0, some 3, some 0⟩ := congrArg Prod.snd hblocks
  rw [← hstate]
  exact served_lastCommon hserved

/-- The same node, when the peer has announced the third block. -/
def announcedNode : DownloadNode :=
  { headerChainNode with state := announcedBlocks, ok := PeerBlocks.Ok.new.updateBlockAvailability 3 }

theorem find_right_iff_headerChain :
    ((∃ r, headerChainNode.findNextBlocksToDownload 16 headerChainNode.state = some r ∧ headerChainNode.Right 16 r) ↔
      (headerChainNode.Parallel → headerChainNode.Fits 16)) ∧
    ∃ r, announcedNode.findNextBlocksToDownload 16 announcedNode.state = some r ∧ announcedNode.Right 16 r ∧ r.vBlocks = [1, 2, 3] := by
  have hbest : announcedNode.known.pindexBestKnownBlock = some 3 := by decide +kernel
  obtain ⟨r, hr, hright⟩ := (find_right_iff announcedNode 16 (by omega)).mpr fun hparallel => absurd (hbest.symm.trans hparallel.1)
    (by decide)
  obtain ⟨r', hr', hblocks⟩ := Option.map_eq_some_iff.mp find_announcedBlocks
  have hfind : announcedNode.findNextBlocksToDownload 16 announcedNode.state =
      headerChainNode.findNextBlocksToDownload 16 announcedBlocks := by
    dsimp only [announcedNode]
  have hsame : r' = r := Option.some.inj (hr'.symm.trans (hfind.symm.trans hr))
  rw [hsame] at hblocks
  exact ⟨find_right_iff headerChainNode 16 (by omega), r, hr, hright, congrArg Prod.fst hblocks⟩

/-- The blocks 2 and 1 are asked for in this order. -/
theorem not_find_right_headerChain : ¬ ∀ (n : DownloadNode) (count : Nat), 0 < count →
    ∃ r, n.findNextBlocksToDownload count n.state = some r ∧ n.Right count r := by
  intro hall
  obtain ⟨r, hr, hright⟩ := hall headerChainNode 16 (by omega)
  have hparallel : headerChainNode.Parallel := by
    refine ⟨rfl, ?_⟩
    rw [InitialDownload.isInitialBlockDownload]
    have hlength : headerChainNode.chain.chainActive.vChain.length = 1 := CChain.length_ofTip genesis_mem
    simp only [hlength]
    rfl
  obtain ⟨r', hr', -, hcases⟩ := headerChainNode.find_cases (show 0 < 16 by omega)
  rw [hr] at hr'
  cases hr'
  rcases hcases with ⟨-, hblocks⟩ | ⟨hnot, -⟩
  · have hreached {p : Nat} (hpos : 0 < p) (hp : p ≤ 2) : headerChainNode.Reached p := by
      refine ⟨anc_parentBelow (show p ≤ 514 by omega), ?_, ?_, fun q _ _ _ => rfl⟩
      · have hmax : headerChainNode.maxHeight headerChainNode.pindexBestHeader headerChainNode.tip = 2 := rfl
        have hheight : headerChainNode.chain.index.nHeight p = p := rfl
        rw [hmax, hheight]
        omega
      · have hdata : (headerChainNode.chain.status p).haveData = false := decide_eq_false (show ¬ p = 0 by omega)
        rw [DownloadEnv.missing, hdata]
        rfl
    have hincreasing := hright.increasing
    rw [hblocks, increasing_parallelBlocks (by omega)] at hincreasing
    rcases hincreasing with hone | hone
    · omega
    · have heq : (1 : Nat) = 2 := hone 1 2 (hreached (by omega) (by omega)) (hreached (by omega) (by omega))
      omega
  · exact hnot hparallel

end DownloadNode

end DigiWage.Net
