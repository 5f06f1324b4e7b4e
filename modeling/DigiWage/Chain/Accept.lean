import DigiWage.Chain.Pow
import DigiWage.Coins.View

/-!
# `AcceptBlock`

The checks that a header and a block pass before the block is stored: `AcceptBlockHeader` and `AcceptBlock` of
`main.cpp`, with `CheckBlockHeader`, `ContextualCheckBlockHeader`, `CheckBlockTime`, the checkpoints, `CheckProofOfStake`
and the checks of the coinstake inputs.

* `AcceptEnv` holds what these functions ask of the rest of the node: the clock, options, checkpoints, the transaction
  database, scripts and hashes, the checks on the transactions of a block, and whether the disk can be written.
* The blocks on disk are the blocks of the source whose data are there.
* A failed check is a `Rejection`, or nothing where the code returns `error(...)` without telling the validation state.
-/

namespace DigiWage

open Lib ChainState

/-- What a failed check leaves in `CValidationState`. -/
structure Rejection where
  nDoS : Nat
  strRejectReason : String
  corruptionPossible : Bool
deriving DecidableEq, Repr

/-- The result of a check. -/
abbrev Check := Except (Option Rejection) Unit

/-- `state.DoS(...)`; `state.Invalid(...)` is the same with level 0. -/
def Check.dos (level : Nat) (chRejectReason : String) : Check := .error (some ⟨level, chRejectReason, false⟩)

/-- `return error(...)`. -/
def Check.fail : Check := .error none

def Check.pass : Check := .ok ()

/-- What the checks ask of the rest of the node. -/
structure AcceptEnv where
  /-- `-maxreorg`. -/
  nMaxReorgDepth : Int
  adjustedTime : Int
  checkpointsEnabled : Bool
  /-- The checkpoints, by height. -/
  mapCheckpoints : List (Nat × Uint256)
  /-- What `CheckBlockHeader` returns where it has no return statement. -/
  noReturn : CBlockHeader → Bool
  /-- `GetTransaction`: the transaction and the hash of its block. -/
  getTransaction : Uint256 → Option (CTransaction × Uint256)
  /-- The script of the first coinstake input, for the transaction it spends. -/
  verifyScript : CTransaction → CTransaction → Bool
  /-- `CStakeKernel::GetHash`. -/
  kernelHash : Ptr → CBlock → Ptr → Uint256
  /-- `CheckBlock` after the check of the header. -/
  checkBlockBody : CBlock → Check
  contextualCheckBlock : CBlock → Option Ptr → Check
  /-- `FindBlockPos` and `WriteBlockToDisk` succeed. -/
  writes : Bool
  /-- What `ConnectBlock` and `DisconnectBlock` say, and the rounds of `ActivateBestChain`. -/
  orc : Oracle
  fuel : Nat

/-! ## Headers -/

def checkBlockHeader (params : ConsensusParams) (env : AcceptEnv) (block : CBlockHeader) (fCheckPOW : Bool) : Check :=
  if fCheckPOW && !checkProofOfWork params block.hash block.nBits then .dos 50 "high-hash"
  else if params.isRegTestNet then .pass
  else if env.noReturn block then .pass else .fail

/-- `CBlockIndex::GetMedianTimePast`. -/
def getMedianTimePast (t : BlockIndex) (p : Ptr) : Nat :=
  let times := (((t.path p).take 11).map fun q => (t.entry q).nTime).mergeSort
  times.getD (times.length / 2) 0

/-- `CBlockIndex::MinPastBlockTime`. -/
def minPastBlockTime (params : ConsensusParams) (t : BlockIndex) (p : Ptr) : Int :=
  let nHeight := t.nHeight p
  if !params.isTimeProtocolV2 (nHeight + 1) then getMedianTimePast t p
  else if nHeight + 1 = params.heightStartTimeProtoV2 then
    (t.entry p).nTime - params.futureBlockTimeDrift nHeight + params.futureBlockTimeDrift (nHeight + 1)
  else (t.entry p).nTime

def checkBlockTime (params : ConsensusParams) (env : AcceptEnv) (t : BlockIndex) (block : CBlockHeader)
    (pindexPrev : Ptr) : Check :=
  let blockHeight := t.nHeight pindexPrev + 1
  if params.isRegTestNet then .pass
  else if env.adjustedTime + params.futureBlockTimeDrift blockHeight < block.nTime then .dos 0 "time-too-new"
  else if (block.nTime : Int) ≤ minPastBlockTime params t pindexPrev then .dos 50 "time-too-old"
  else if !params.isValidBlockTimeStamp block.nTime blockHeight then .dos 100 "invalid-time-mask"
  else .pass

/-- `Checkpoints::CheckBlock`. -/
def AcceptEnv.checkpointsCheckBlock (env : AcceptEnv) (nHeight : Nat) (hash : Uint256) (fMatchesCheckpoint : Bool) :
    Bool :=
  !env.checkpointsEnabled ||
    match env.mapCheckpoints.find? fun c => c.1 == nHeight with
    | none => !fMatchesCheckpoint
    | some c => hash == c.2

/-- `Checkpoints::GetLastCheckpoint`. -/
def AcceptEnv.getLastCheckpoint (env : AcceptEnv) (t : BlockIndex) : Option Ptr :=
  if env.checkpointsEnabled then env.mapCheckpoints.reverse.findSome? fun c => t.find c.2 else none

/-- `ContextualCheckBlockHeader` for a block that is not the genesis block. -/
def contextualCheckBlockHeader (params : ConsensusParams) (env : AcceptEnv) (s : ChainState) (block : CBlockHeader)
    (pindexPrev : Ptr) : Check :=
  let nHeight := s.index.nHeight pindexPrev + 1
  let chainHeight : Int := (s.chainActive.vChain.length : Int) - 1
  if env.nMaxReorgDepth ≤ chainHeight - nHeight then .dos 1 ""
  else
    match checkBlockTime params env s.index block pindexPrev with
    | .error e => .error e
    | .ok () =>
      if !env.checkpointsCheckBlock nHeight block.hash false then .dos 100 "checkpoint mismatch"
      else if (match env.getLastCheckpoint s.index with
          | none => false
          | some pcheckpoint => decide (nHeight < s.index.nHeight pcheckpoint)) then .dos 0 ""
      else if block.nVersion < 3 ∨ (block.nVersion < 4 ∧ params.heightStartZC ≤ nHeight) ∨
          (block.nVersion < 5 ∧ params.heightRHF ≤ nHeight) then
        .dos 0 ("rejected block version " ++ toString block.nVersion.toInt ++ " at height " ++ toString nHeight)
      else .pass

/-- `AcceptBlockHeader`: the entry of the block, made at the free address `new` unless the block is known. -/
def acceptBlockHeader (src : BlockSource) (params : ConsensusParams) (env : AcceptEnv) (s : ChainState) (new : Ptr)
    (block : CBlock) : Except (Option Rejection) Ptr × ChainState :=
  match s.index.find block.hash with
  | some pindex => if (s.status pindex).failed then (.error (some ⟨0, "duplicate", false⟩), s) else (.ok pindex, s)
  | none =>
    match checkBlockHeader params env block.toCBlockHeader false with
    | .error e => (.error e, s)
    | .ok () =>
      if block.hash = src.hashGenesisBlock then
        (.ok (s.addToBlockIndex new block.toCBlockHeader).1, (s.addToBlockIndex new block.toCBlockHeader).2)
      else
        match s.index.find block.hashPrevBlock with
        | none => (.error (some ⟨0, "bad-prevblk", false⟩), s)
        | some pindexPrev =>
          -- `pindex` is null here, so that no checkpoint makes the parent reconsidered
          if (s.status pindexPrev).failed then (.error (some ⟨100, "bad-prevblk", false⟩), s)
          else
            match contextualCheckBlockHeader params env s block.toCBlockHeader pindexPrev with
            | .error e => (.error e, s)
            | .ok () =>
              (.ok (s.addToBlockIndex new block.toCBlockHeader).1, (s.addToBlockIndex new block.toCBlockHeader).2)

/-! ## Stakes -/

/-- `CPivStake::InitFromTxIn`: the transaction that the input spends, and the block of the active chain it is in. -/
def initFromTxIn (env : AcceptEnv) (s : ChainState) (txin : CTxIn) : Option (CTransaction × Ptr) :=
  match env.getTransaction txin.prevout.hash with
  | none => none
  | some (txPrev, hashBlock) =>
    match s.index.find hashBlock with
    | none => none
    | some pindexFrom => if s.chainActive.contains s.index pindexFrom then some (txPrev, pindexFrom) else none

/-- `CPivStake::ContextCheck`. -/
def contextCheck (params : ConsensusParams) (t : BlockIndex) (pindexFrom : Ptr) (nHeight nTime : Nat) : Bool :=
  decide (nHeight + 1 < params.heightRHF) ||
    params.hasStakeMinAgeOrDepth nHeight nTime (t.nHeight pindexFrom) (t.entry pindexFrom).nTime

/-- `CStakeKernel::CheckKernelHash`: the target is weighted with the value of the stake. -/
def checkKernelHash (hashProofOfStake : Uint256) (nBits : Nat) (stakeValue : Int) : Bool :=
  decide (hashProofOfStake < (setCompact nBits).1 * (BitVec.ofNat 256 (stakeValue % 2 ^ 64).toNat / 100))

def checkProofOfStake (params : ConsensusParams) (env : AcceptEnv) (s : ChainState) (block : CBlock) (pindexPrev : Ptr) :
    Bool :=
  match block.vtx with
  | _ :: tx :: _ =>
    match tx.vin with
    | [] => false
    | txin :: _ =>
      match initFromTxIn env s txin with
      | none => false
      | some (txPrev, pindexFrom) =>
        block.hashPrevBlock == (s.index.entry pindexPrev).hash && tx.isCoinStake &&
        contextCheck params s.index pindexFrom (s.index.nHeight pindexPrev + 1) block.nTime &&
        env.verifyScript tx txPrev &&
        checkKernelHash (env.kernelHash pindexPrev block pindexFrom) block.nBits
          (txPrev.vout.getD txin.prevout.n CTxOut.null).nValue
  | _ => false

def ChainState.readBlockFromDisk (src : BlockSource) (s : ChainState) (p : Ptr) : Option CBlock :=
  if (s.status p).haveData then some (src.block (s.index.entry p).hash) else none

/-- A transaction of the block spends one of the inputs. -/
def spendsAny (pivInputs : List CTxIn) (vtx : List CTransaction) : Bool :=
  vtx.any fun tx => tx.vin.any fun txin => pivInputs.any fun pivIn => pivIn.prevout == txin.prevout

/-- The walk of `AcceptBlock` along the fork, from `prev` and the block `bl` read for it down to the active chain; there
is no result when it follows a null pointer. -/
def walkFork (src : BlockSource) (env : AcceptEnv) (s : ChainState) (pivInputs : List CTxIn) :
    Nat → List Ptr → CBlock → Option Check
  | _, [], _ => none
  | readBlock, prev :: rest, bl =>
    if s.chainActive.contains s.index prev then some .pass
    else if ((readBlock + 1 : Nat) : Int) = env.nMaxReorgDepth then some .fail
    else if spendsAny pivInputs bl.vtx then some (.dos 100 "")
    else
      match rest with
      | [] => none
      | pprev :: _ =>
        match s.readBlockFromDisk src pprev with
        | none => some .fail
        | some bl' => walkFork src env s pivInputs (readBlock + 1) rest bl'

/-- `CCoinsViewCache::AccessCoins`; whether pruned coins are there or not makes no difference below. -/
def CoinsView.accessCoins (view : CoinsView) (txid : Uint256) : Option CCoins :=
  if (view.coins txid).isPruned then none else some (view.coins txid)

/-- The check of the coinstake inputs against the coins of the active chain. -/
def checkCoins (view : CoinsView) (isBlockFromFork : Bool) : List CTxIn → Check
  | [] => .pass
  | txin :: vin =>
    match view.accessCoins txin.prevout.hash with
    | none => if !isBlockFromFork then .fail else checkCoins view isBlockFromFork vin
    | some coin =>
      if !coin.isAvailable txin.prevout.n && !isBlockFromFork then .fail else checkCoins view isBlockFromFork vin

/-- The checks of `AcceptBlock` on the inputs of the coinstake. -/
def checkStakeInputs (src : BlockSource) (env : AcceptEnv) (pcoinsTip : CoinsView) (s : ChainState) (block : CBlock)
    (stakeTxIn : CTransaction) (pindexPrev : Ptr) : Option Check :=
  let isBlockFromFork := s.tip != some pindexPrev
  let pivInputs := stakeTxIn.vin.filter fun txin => !txin.isZerocoinSpend
  -- a double spent coinstake input inside the block
  if spendsAny pivInputs (block.vtx.filter fun tx => !tx.isCoinStake) then some .fail
  else
    let fork : Option Check := if isBlockFromFork then
        match s.readBlockFromDisk src pindexPrev with
        | none => some .fail
        | some bl => walkFork src env s pivInputs 0 (s.index.path pindexPrev) bl
      else some .pass
    match fork with
    | none => none
    | some (.error e) => some (.error e)
    | some (.ok ()) => some (checkCoins pcoinsTip isBlockFromFork stakeTxIn.vin)

/-! ## Blocks -/

def checkBlock (params : ConsensusParams) (env : AcceptEnv) (block : CBlock) : Check :=
  match checkBlockHeader params env block.toCBlockHeader (!block.isProofOfStake) with
  | .error _ => .error (some ⟨100, "bad-header", true⟩)
  | .ok () => env.checkBlockBody block

/-- How `AcceptBlock` returns true: after it reconsidered the parent, for a block that is there already, or with the
block stored. -/
inductive Accepted where
  | reconsidered
  | known (pindex : Ptr)
  | stored (pindex : Ptr)
deriving DecidableEq, Repr

/-- `AcceptBlock` once the entry of the block is there. -/
def acceptBlockData (src : BlockSource) (params : ConsensusParams) (env : AcceptEnv) (pcoinsTip : CoinsView)
    (s : ChainState) (block : CBlock) (pindexPrev : Option Ptr) (fAlreadyCheckedBlock : Bool) (pindex : Ptr) :
    Option (Except (Option Rejection) Accepted × ChainState) :=
  if (s.status pindex).haveData then some (.ok (.known pindex), s)
  else
    let checked : Check := match if fAlreadyCheckedBlock then Check.pass else checkBlock params env block with
      | .error e => .error e
      | .ok () => env.contextualCheckBlock block (s.index.pprev pindex)
    match checked with
    | .error e =>
      -- only a rejection that cannot come from a corrupted block marks the entry
      let marks := match e with
        | none => false
        | some r => !r.corruptionPossible
      some (.error e, if marks then s.setStatus pindex fun st => { st with failedValid := true } else s)
    | .ok () =>
      let stake : Option Check := match block.isProofOfStake, block.vtx, pindexPrev with
        | true, _ :: stakeTxIn :: _, some prev => checkStakeInputs src env pcoinsTip s block stakeTxIn prev
        | _, _, _ => some .pass
      match stake with
      | none => none
      | some (.error e) => some (.error e, s)
      | some (.ok ()) =>
        if env.writes then some (.ok (.stored pindex), s.receivedBlockTransactions pindex block.vtx.length)
        else some (.error none, s)

/-- `AcceptBlock` once the parent is found, if there has to be one. -/
def acceptOn (src : BlockSource) (params : ConsensusParams) (env : AcceptEnv) (pcoinsTip : CoinsView) (s : ChainState)
    (new : Ptr) (block : CBlock) (pindexPrev : Option Ptr) (fAlreadyCheckedBlock : Bool) :
    Option (Except (Option Rejection) Accepted × ChainState) :=
  let stakeOk := !block.isProofOfStake ||
    match pindexPrev with
    -- the genesis block has no parent to find
    | none => false
    | some prev => checkProofOfStake params env s block prev
  if !stakeOk then some (.error (some ⟨100, "", false⟩), s)
  else
    match acceptBlockHeader src params env s new block with
    | (.error e, s₁) => some (.error e, s₁)
    | (.ok pindex, s₁) => acceptBlockData src params env pcoinsTip s₁ block pindexPrev fAlreadyCheckedBlock pindex

def acceptBlock (src : BlockSource) (params : ConsensusParams) (env : AcceptEnv) (pcoinsTip : CoinsView) (s : ChainState)
    (new : Ptr) (block : CBlock) (fAlreadyCheckedBlock : Bool) :
    Option (Except (Option Rejection) Accepted × ChainState) :=
  if block.hash = src.hashGenesisBlock then acceptOn src params env pcoinsTip s new block none fAlreadyCheckedBlock
  else
    match s.index.find block.hashPrevBlock with
    | none => some (.error (some ⟨0, "bad-prevblk", false⟩), s)
    | some pindexPrev =>
      if (s.status pindexPrev).failed then
        if env.checkpointsCheckBlock (s.index.nHeight pindexPrev) block.hashPrevBlock true then
          match s.reconsiderBlock pindexPrev with
          | none => none
          | some s₁ =>
            match activateBestChain env.orc env.fuel s₁ with
            | .done s₂ => some (.ok .reconsidered, s₂)
            | .failed s₂ => some (.ok .reconsidered, s₂)
            | .aborted => none
            | .running => none
        else some (.error (some ⟨100, "bad-prevblk", false⟩), s)
      else acceptOn src params env pcoinsTip s new block (some pindexPrev) fAlreadyCheckedBlock

/-! ## The index

Only `AddToBlockIndex` changes the index. -/

namespace ChainState

variable {s s' : ChainState} {orc : Oracle} {p : Ptr}

theorem invalidChainFound_index (s : ChainState) (p : Ptr) : (s.invalidChainFound p).index = s.index := by
  obtain ⟨b, hb⟩ := invalidChainFound_eq s p
  rw [hb]

theorem invalidBlockFound_index (s : ChainState) (p : Ptr) : (s.invalidBlockFound p).index = s.index :=
  invalidChainFound_index _ p

theorem removeBranch_index (s : ChainState) (p test : Ptr) : (s.removeBranch p test).index = s.index := by
  unfold removeBranch eraseCandidates
  cases (s.status test).failed with
  | true => exact invalidChainFound_index s p
  | false => rfl

theorem findMostWorkLoop_index : ∀ {fuel : Nat} {s s' : ChainState} {r : Option Ptr},
    findMostWorkLoop fuel s = some (r, s') → s'.index = s.index
  | 0, s, s', r, h => by
    cases h
    rfl
  | fuel + 1, s, s', r, h => by
    unfold findMostWorkLoop at h
    split at h
    · cases h
      rfl
    · split at h
      · split at h
        · cases h
          rfl
        · cases h
      · split at h
        · exact (findMostWorkLoop_index h).trans (removeBranch_index s _ _)
        · cases h

theorem pruneBlockIndexCandidates_index (h : s.pruneBlockIndexCandidates = some s') : s'.index = s.index := by
  unfold pruneBlockIndexCandidates at h
  split at h
  · cases h
  · dsimp only at h
    split at h
    · cases h
    · cases h
      rfl

theorem disconnectTip_index {ok : Bool} (h : s.disconnectTip orc = some (ok, s')) : s'.index = s.index := by
  unfold disconnectTip at h
  split at h
  · cases h
  · dsimp only at h
    split at h
    · split at h
      · cases h
      · cases h
        rfl
    · cases h
      rfl

theorem connectTip_index {r : ConnectResult} (h : s.connectTip orc p = some (r, s')) : s'.index = s.index := by
  unfold connectTip at h
  split at h
  · dsimp only at h
    split at h
    · cases h
      dsimp only
      split <;> rfl
    · cases h
      exact invalidBlockFound_index _ p
    · cases h
      rfl
  · cases h

theorem disconnectTo_index {f : Option Ptr} : ∀ {fuel : Nat} {s s' : ChainState} {ok : Bool},
    disconnectTo orc f fuel s = some (ok, s') → s'.index = s.index
  | 0, s, s', ok, h => by
    cases h
    rfl
  | fuel + 1, s, s', ok, h => by
    unfold disconnectTo at h
    split at h
    · cases h
      rfl
    · split at h
      · cases h
      · rename_i hd
        cases h
        exact disconnectTip_index hd
      · rename_i hd
        exact (disconnectTo_index h).trans (disconnectTip_index hd)

theorem connectBatch_index {old : Option Ptr} {back : Ptr} : ∀ {l : List Ptr} {s s' : ChainState} {r : BatchResult},
    connectBatch orc old back l s = some (r, s') → s'.index = s.index
  | [], s, s', r, h => by
    cases h
    rfl
  | p :: l, s, s', r, h => by
    unfold connectBatch at h
    split at h
    · cases h
    · rename_i hc
      cases h
      exact connectTip_index hc
    · rename_i hc
      cases h
      exact (invalidChainFound_index _ back).trans (connectTip_index hc)
    · rename_i hc
      split at h
      · cases h
      · rename_i hp
        have hindex := (pruneBlockIndexCandidates_index hp).trans (connectTip_index hc)
        split at h
        · cases h
          exact hindex
        · split at h
          · cases h
            exact hindex
          · exact (connectBatch_index h).trans hindex

theorem connectBatches_index {old : Option Ptr} {m : Ptr} : ∀ {fuel next : Nat} {s s' : ChainState} {ok : Bool},
    connectBatches orc old m fuel next s = some (ok, s') → s'.index = s.index
  | 0, _, s, s', ok, h => by
    cases h
    rfl
  | fuel + 1, next, s, s', ok, h => by
    unfold connectBatches at h
    split at h
    · cases h
      rfl
    · dsimp only at h
      split at h
      · cases h
      · split at h
        · cases h
        · rename_i hb
          cases h
          exact connectBatch_index hb
        · rename_i hb
          cases h
          exact connectBatch_index hb
        · rename_i hb
          exact (connectBatches_index h).trans (connectBatch_index hb)

theorem activateBestChainStep_index {ok : Bool} (h : activateBestChainStep orc p s = some (ok, s')) :
    s'.index = s.index := by
  unfold activateBestChainStep at h
  dsimp only at h
  split at h
  · cases h
  · rename_i hd
    cases h
    exact disconnectTo_index hd
  · rename_i hd
    exact (connectBatches_index h).trans (disconnectTo_index hd)

theorem activateBestChain_index : ∀ {fuel : Nat} {s s' : ChainState},
    (activateBestChain orc fuel s = .done s' ∨ activateBestChain orc fuel s = .failed s') → s'.index = s.index
  | 0, _, _, h => by
    rcases h with h | h <;> cases h
  | fuel + 1, s, s', h => by
    unfold activateBestChain at h
    split at h
    · rcases h with h | h <;> cases h
    · rename_i hf
      rcases h with h | h
      · cases h
        exact findMostWorkLoop_index hf
      · cases h
    · rename_i hf
      split at h
      · rcases h with h | h
        · cases h
          exact findMostWorkLoop_index hf
        · cases h
      · split at h
        · rcases h with h | h <;> cases h
        · rename_i hstep
          rcases h with h | h
          · cases h
          · cases h
            exact (activateBestChainStep_index hstep).trans (findMostWorkLoop_index hf)
        · rename_i hstep
          have hindex := (activateBestChainStep_index hstep).trans (findMostWorkLoop_index hf)
          split at h
          · rcases h with h | h
            · cases h
              exact hindex
            · cases h
          · exact (activateBestChain_index h).trans hindex

end ChainState

theorem acceptBlockHeader_cases {src : BlockSource} {params : ConsensusParams} {env : AcceptEnv} {s s' : ChainState}
    {new : Ptr} {block : CBlock} {r : Except (Option Rejection) Ptr} (hnew : new ∉ s.index.mapBlockIndex)
    (h : acceptBlockHeader src params env s new block = (r, s')) :
    (s' = s ∧ ∀ p, r = .ok p → s.index.find block.hash = some p) ∨
    (r = .ok new ∧ Added s new block.toCBlockHeader s' ∧ s.index.find block.hash = none ∧
      (block.hash = src.hashGenesisBlock ∨ ∃ q, s.index.find block.hashPrevBlock = some q ∧
        contextualCheckBlockHeader params env s block.toCBlockHeader q = .ok ())) := by
  unfold acceptBlockHeader at h
  split at h
  · rename_i p hfind
    split at h <;> cases h
    · exact Or.inl ⟨rfl, by rintro q ⟨⟩⟩
    · exact Or.inl ⟨rfl, by rintro q ⟨⟩; exact hfind⟩
  · rename_i hfind
    have hadd := addToBlockIndex_added hnew hfind
    have hfst : (s.addToBlockIndex new block.toCBlockHeader).1 = new := by
      unfold addToBlockIndex
      rw [hfind]
    split at h
    · cases h
      exact Or.inl ⟨rfl, by rintro q ⟨⟩⟩
    · split at h
      · rename_i hg
        cases h
        exact Or.inr ⟨by rw [hfst], hadd, hfind, Or.inl hg⟩
      · split at h
        · cases h
          exact Or.inl ⟨rfl, by rintro q ⟨⟩⟩
        · rename_i q hq
          split at h
          · cases h
            exact Or.inl ⟨rfl, by rintro q ⟨⟩⟩
          · split at h
            · cases h
              exact Or.inl ⟨rfl, by rintro q ⟨⟩⟩
            · rename_i hctx
              cases h
              exact Or.inr ⟨by rw [hfst], hadd, hfind, Or.inr ⟨q, hq, hctx⟩⟩

end DigiWage
