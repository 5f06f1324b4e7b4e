import DigiWage.Chain.Accept
import DigiWage.Chain.Failure

/-!
# The difficulty of stored blocks

No check compares the target of a block with `GetNextWorkRequired`: `CheckProofOfWork` and `CheckProofOfStake` measure a
block by the target that it claims.

* `acceptOp_step`: an operation leaves the index as it is, or adds the block that it takes in (`IndexStep`).
-/

namespace DigiWage

open Lib ChainState

/-! ## Runs -/

/-- The operations that can add entries, and those in between. -/
inductive AcceptOp where
  | acceptBlock (env : AcceptEnv) (pcoinsTip : CoinsView) (new : Ptr) (hash : Uint256) (fAlreadyCheckedBlock : Bool)
  | acceptBlockHeader (env : AcceptEnv) (new : Ptr) (hash : Uint256)
  | activateBestChain (orc : Oracle) (fuel : Nat)
  | invalidateBlock (orc : Oracle) (p : Ptr)
  | reconsiderBlock (p : Ptr)

/-- An operation; a new entry gets a free address. -/
def AcceptOp.step (src : BlockSource) (params : ConsensusParams) (s : ChainState) : AcceptOp → Option ChainState
  | acceptBlock env pcoinsTip new hash fAlreadyCheckedBlock =>
    if new ∈ s.index.mapBlockIndex then none
    else (DigiWage.acceptBlock src params env pcoinsTip s new (src.block hash) fAlreadyCheckedBlock).map Prod.snd
  | acceptBlockHeader env new hash =>
    if new ∈ s.index.mapBlockIndex then none
    else some (DigiWage.acceptBlockHeader src params env s new (src.block hash)).2
  | activateBestChain orc fuel =>
    match DigiWage.activateBestChain orc fuel s with
    | .done s' => some s'
    | .failed s' => some s'
    | .aborted => none
    | .running => none
  | invalidateBlock orc p => if p ∈ s.index.mapBlockIndex then (s.invalidateBlock orc p).map Prod.snd else none
  | reconsiderBlock p => if p ∈ s.index.mapBlockIndex then s.reconsiderBlock p else none

/-- A run from the state of a node without blocks. -/
def runAccept (src : BlockSource) (params : ConsensusParams) (ops : List AcceptOp) : Option ChainState :=
  ops.foldlM (AcceptOp.step src params) ChainState.init

/-- The block that an operation takes in. -/
def AcceptOp.taken : AcceptOp → Option Uint256
  | acceptBlock _ _ _ hash _ => some hash
  | acceptBlockHeader _ _ hash => some hash
  | _ => none

/-- What an operation does to the index: nothing, or the block that it takes in is added. -/
def IndexStep (src : BlockSource) (taken : Option Uint256) (s s' : ChainState) : Prop :=
  s'.index = s.index ∨ ∃ new hash s₁, taken = some hash ∧ Added s new (src.block hash).toCBlockHeader s₁ ∧
    s.index.find hash = none ∧ (hash = src.hashGenesisBlock ∨ ∃ q, s.index.find (src.block hash).hashPrevBlock = some q) ∧
    s'.index = s₁.index

theorem IndexStep.then {src : BlockSource} {taken : Option Uint256} {s s₁ s' : ChainState} (h : IndexStep src taken s s₁)
    (heq : s'.index = s₁.index) : IndexStep src taken s s' := by
  rcases h with hsame | ⟨new, hash, s₂, htaken, ha, hfind, hpar, hindex⟩
  · exact Or.inl (heq.trans hsame)
  · exact Or.inr ⟨new, hash, s₂, htaken, ha, hfind, hpar, heq.trans hindex⟩

theorem acceptBlockHeader_step {src : BlockSource} (params : ConsensusParams) (env : AcceptEnv) {s : ChainState}
    {new : Ptr} (hash : Uint256) (hnew : new ∉ s.index.mapBlockIndex) :
    IndexStep src (some hash) s (DigiWage.acceptBlockHeader src params env s new (src.block hash)).2 := by
  rcases hres : DigiWage.acceptBlockHeader src params env s new (src.block hash) with ⟨r, s'⟩
  have hhash := src.hash_block hash
  rcases acceptBlockHeader_cases hnew hres with ⟨rfl, -⟩ | ⟨-, ha, hfind, hpar⟩
  · exact Or.inl rfl
  · rw [hhash] at hfind hpar
    refine Or.inr ⟨new, hash, s', rfl, ha, hfind, ?_, rfl⟩
    rcases hpar with hg | ⟨q, hq, -⟩
    · exact Or.inl hg
    · exact Or.inr ⟨q, hq⟩

theorem acceptBlockData_index {src : BlockSource} {params : ConsensusParams} {env : AcceptEnv} {view : CoinsView}
    {s s' : ChainState} {block : CBlock} {prev : Option Ptr} {checked : Bool} {pindex : Ptr}
    {r : Except (Option Rejection) Accepted}
    (h : acceptBlockData src params env view s block prev checked pindex = some (r, s')) : s'.index = s.index := by
  unfold acceptBlockData at h
  split at h
  · cases h
    rfl
  · dsimp only at h
    split at h
    · cases h
      split
      · rfl
      · split <;> rfl
    · split at h
      · cases h
      · cases h
        rfl
      · split at h
        · cases h
          exact (received_frame s pindex _).1
        · cases h
          rfl

theorem acceptOn_step {src : BlockSource} {params : ConsensusParams} {env : AcceptEnv} {view : CoinsView}
    {s s' : ChainState} {new : Ptr} {hash : Uint256} {prev : Option Ptr} {checked : Bool}
    {r : Except (Option Rejection) Accepted} (hnew : new ∉ s.index.mapBlockIndex)
    (heq : DigiWage.acceptOn src params env view s new (src.block hash) prev checked = some (r, s')) :
    IndexStep src (some hash) s s' := by
  have hheader := @acceptBlockHeader_step src params env s new hash hnew
  unfold DigiWage.acceptOn at heq
  dsimp only at heq
  generalize (!_ || _) = stakeOk at heq
  cases stakeOk with
  | false =>
    cases heq
    exact Or.inl rfl
  | true =>
    simp only [Bool.not_true, Bool.false_eq_true, if_false] at heq
    split at heq
    · rename_i hres
      cases heq
      rwa [hres] at hheader
    · rename_i hres
      rw [hres] at hheader
      exact hheader.then (acceptBlockData_index heq)

theorem acceptBlock_step {src : BlockSource} {params : ConsensusParams} {env : AcceptEnv} {view : CoinsView}
    {s s' : ChainState} {new : Ptr} {hash : Uint256} {checked : Bool} {r : Except (Option Rejection) Accepted}
    (hnew : new ∉ s.index.mapBlockIndex)
    (heq : DigiWage.acceptBlock src params env view s new (src.block hash) checked = some (r, s')) :
    IndexStep src (some hash) s s' := by
  unfold DigiWage.acceptBlock at heq
  split at heq
  · exact acceptOn_step hnew heq
  · split at heq
    · cases heq
      exact Or.inl rfl
    · split at heq
      · split at heq
        · split at heq
          · cases heq
          · rename_i hrec
            have hindex := (reconsider_frame hrec).1
            split at heq
            · rename_i hact
              cases heq
              exact Or.inl ((activateBestChain_index (Or.inl hact)).trans hindex)
            · rename_i hact
              cases heq
              exact Or.inl ((activateBestChain_index (Or.inr hact)).trans hindex)
            · cases heq
            · cases heq
        · cases heq
          exact Or.inl rfl
      · exact acceptOn_step hnew heq

theorem invalidateLoop_index {orc : Oracle} {p : Ptr} : ∀ {fuel : Nat} {s s' : ChainState} {ok : Bool},
    invalidateLoop orc p fuel s = some (ok, s') → s'.index = s.index
  | 0, s, s', ok, h => by
    cases h
    rfl
  | fuel + 1, s, s', ok, h => by
    unfold invalidateLoop at h
    split at h
    · split at h
      · cases h
      · split at h
        · cases h
        · rename_i hd
          cases h
          have hindex := disconnectTip_index hd
          exact hindex
        · rename_i hd
          have hindex := disconnectTip_index hd
          exact (invalidateLoop_index h).trans hindex
    · cases h
      rfl

theorem invalidateBlock_index {s s' : ChainState} {orc : Oracle} {p : Ptr} {ok : Bool}
    (h : s.invalidateBlock orc p = some (ok, s')) : s'.index = s.index := by
  unfold invalidateBlock at h
  dsimp only at h
  split at h
  · cases h
  · rename_i hloop
    cases h
    have hindex := invalidateLoop_index hloop
    exact hindex
  · rename_i s₂ hloop
    split at h
    · cases h
    · rename_i tip htip
      cases h
      obtain ⟨c, hc, -⟩ := foldl_insertCandidate (s₂.readded tip) s₂
      have hindex := invalidateLoop_index hloop
      rw [invalidChainFound_index, hc]
      exact hindex

theorem acceptOp_step {src : BlockSource} {params : ConsensusParams} {s s' : ChainState} {op : AcceptOp}
    (heq : op.step src params s = some s') : IndexStep src op.taken s s' := by
  cases op with
  | acceptBlock env view new hash checked =>
    simp only [AcceptOp.step, Option.ite_none_left_eq_some, Option.map_eq_some_iff] at heq
    obtain ⟨hnew, ⟨r, s₁⟩, hres, rfl⟩ := heq
    exact acceptBlock_step hnew hres
  | acceptBlockHeader env new hash =>
    simp only [AcceptOp.step, Option.ite_none_left_eq_some, Option.some.injEq] at heq
    obtain ⟨hnew, rfl⟩ := heq
    exact acceptBlockHeader_step params env hash hnew
  | activateBestChain orc fuel =>
    cases hres : activateBestChain orc fuel s with
    | done s₁ =>
      simp only [AcceptOp.step, hres, Option.some.injEq] at heq
      rw [← heq]
      exact Or.inl (activateBestChain_index (Or.inl hres))
    | failed s₁ =>
      simp only [AcceptOp.step, hres, Option.some.injEq] at heq
      rw [← heq]
      exact Or.inl (activateBestChain_index (Or.inr hres))
    | aborted => simp [AcceptOp.step, hres] at heq
    | running => simp [AcceptOp.step, hres] at heq
  | invalidateBlock orc p =>
    simp only [AcceptOp.step, Option.ite_none_right_eq_some, Option.map_eq_some_iff] at heq
    obtain ⟨-, ⟨ok, s₁⟩, hres, rfl⟩ := heq
    exact Or.inl (invalidateBlock_index hres)
  | reconsiderBlock p =>
    simp only [AcceptOp.step, Option.ite_none_right_eq_some] at heq
    exact Or.inl (reconsider_frame heq.2).1

theorem step_indexOf {src : BlockSource} {params : ConsensusParams} {s s' : ChainState} {op : AcceptOp}
    (h : IndexOf src s.index) (heq : op.step src params s = some s') : IndexOf src s'.index := by
  rcases acceptOp_step heq with hsame | ⟨new, hash, s₁, -, ha, hfind, hpar, hindex⟩
  · rw [hsame]
    exact h
  · rw [hindex]
    exact h.added hpar hfind ha

/-! ## Two blocks on the regression test network -/

/-- `CRegTestParams`. The height of the RHF is not set there. -/
def regTestParams (heightRHF : Nat) : ConsensusParams where
  isRegTestNet := true
  powLimit := BitVec.allOnes 256 >>> 20
  posLimitV1 := BitVec.allOnes 256 >>> 24
  posLimitV2 := BitVec.allOnes 256 >>> 20
  nTargetTimespan := 40 * 60
  nTargetTimespanV2 := 30 * 60
  nTargetSpacing := 60
  nFutureTimeDriftPoW := 7200
  nFutureTimeDriftPoS := 180
  nTimeSlotLength := 15
  nStakeMinAge := 0
  nStakeMinDepth := 2
  heightLastPoW := 250
  heightStartStakeModifierV2 := 251
  heightStartTimeProtoV2 := 999999999
  heightStartZC := 300
  heightRHF := heightRHF
  spacing_pos := sixty_pos

/-- An environment in which all that is left open passes. -/
def AcceptEnv.lenient : AcceptEnv where
  nMaxReorgDepth := 100
  adjustedTime := 0
  checkpointsEnabled := false
  mapCheckpoints := []
  noReturn _ := false
  getTransaction _ := none
  verifyScript _ _ := true
  kernelHash _ _ _ := 0
  checkBlockBody _ := .pass
  contextualCheckBlock _ _ := .pass
  writes := true
  orc := .succeeds
  fuel := 10

/-- Blocks in a row. From block 2 on they claim another target than the genesis block has. -/
def easierSource : BlockSource where
  block h := ⟨⟨h, 7, h - 1, 0, 0, if h < 2 then 0x1e0ffff0 else 0x207fffff, 0⟩, [⟨0, 1, [], [], 0⟩]⟩
  hash_block _ := rfl
  hashGenesisBlock := 0

/-- The genesis block and two more are accepted. -/
def easierRun : List AcceptOp := [0, 1, 2].map fun n : Nat =>
  .acceptBlock .lenient ⟨fun _ => ⟨false, false, [], 0, 0⟩, 0⟩ n (BitVec.ofNat 256 n) false

theorem easierRun_isSome : (runAccept easierSource (regTestParams 0) easierRun).isSome := by decide

/-- Block 2 is stored with a target that is not the required one. -/
theorem nBits_not_required : ¬ ∀ src params ops s, runAccept src params ops = some s →
    ∀ p ∈ s.index.mapBlockIndex, (s.status p).haveData = true → ∀ q, s.index.pprev p = some q →
      (s.index.entry p).nBits = getNextWorkRequired params s.index q := by
  intro hall
  have hbits := hall easierSource (regTestParams 0) easierRun _ (Option.some_get easierRun_isSome).symm
    2 (by decide) (by decide) 1 (by decide)
  revert hbits
  decide

end DigiWage
